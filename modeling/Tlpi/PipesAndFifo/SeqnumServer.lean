import Tlpi.Lib.LittleEndian
import Tlpi.Lib.Transition
import Tlpi.Lib.Window
import Tlpi.Posix.Strtol

set_option autoImplicit false

/-! # The FIFO sequence-number server (pipes_and_fifo/fifo_seqnum_server.c)

The server reads requests of eight bytes from its own FIFO, opens the FIFO of the client named in
the request, writes the current sequence number to it and adds the requested length.

The program is a function of the results of its system calls: `Server.next s r` is the server after
the call it is at has returned `r`. What the results can be is up to the environment: here they
are arbitrary (`program`); in `SeqnumStream` the reads come from a byte stream that any process
writes to, and in `SeqnumSystem` from the clients of the protocol.
-/

namespace Tlpi.FifoSeqnum

open Decimal LittleEndian

/-! ## fifo_seqnum.h -/

def CLIENT_FIFO_TEMPLATE : List UInt8 := str "/tmp/seqnum_cl.%ld"

/-- `sizeof(CLIENT_FIFO_TEMPLATE) + 20`; `sizeof` counts the NUL. -/
def CLIENT_FIFO_NAME_LEN : ℕ := (CLIENT_FIFO_TEMPLATE.length + 1) + 20

/-- `struct request`. -/
structure Request where
  pid : BitVec 32
  seqLen : BitVec 32
deriving DecidableEq, Repr

/-- `struct response`. -/
structure Response where
  seqNum : BitVec 32
deriving DecidableEq, Repr

/-- The text `CLIENT_FIFO_TEMPLATE` formats for a pid. -/
def clientFifoText (pid : BitVec 32) : List UInt8 := str "/tmp/seqnum_cl." ++ intNumeral pid.toInt

/-- `snprintf(clientFifo, CLIENT_FIFO_NAME_LEN, CLIENT_FIFO_TEMPLATE, (long) pid)`. -/
def clientFifoName (pid : BitVec 32) : List UInt8 :=
  snprintf CLIENT_FIFO_NAME_LEN (clientFifoText pid)

def Request.bytes (r : Request) : List UInt8 := wordBytes r.pid ++ wordBytes r.seqLen

def Request.ofBytes (bs : List UInt8) : Request := ⟨wordOf bs, wordOf (bs.drop 4)⟩

/-- `sizeof(struct request)`. -/
def sizeofRequest : ℕ := 8

def Response.bytes (r : Response) : List UInt8 := wordBytes r.seqNum

def Response.ofBytes (bs : List UInt8) : Response := ⟨wordOf bs⟩

/-- `sizeof(struct response)`. -/
def sizeofResponse : ℕ := 4

@[simp] theorem Request.bytes_length (r : Request) : r.bytes.length = sizeofRequest := by
  simp [Request.bytes, sizeofRequest]

theorem Request.ofBytes_bytes (r : Request) : Request.ofBytes r.bytes = r := by
  have hdrop : r.bytes.drop 4 = wordBytes r.seqLen := by
    rw [Request.bytes, List.drop_left' (wordBytes_length r.pid)]
  rw [Request.ofBytes, hdrop, Request.bytes, wordOf_wordBytes_append, wordOf_wordBytes]

@[simp] theorem Response.bytes_length (r : Response) : r.bytes.length = sizeofResponse := by
  simp [Response.bytes, sizeofResponse]

theorem Response.ofBytes_bytes (r : Response) : Response.ofBytes r.bytes = r := by
  rw [Response.ofBytes, Response.bytes, wordOf_wordBytes]

/-- The name of a client's FIFO is never cut: at most 15 + 11 characters of 38. -/
theorem clientFifoName_eq (pid : BitVec 32) : clientFifoName pid = clientFifoText pid := by
  have hb := toInt_bounds pid
  have hlen := @intNumeral_length_le pid.toInt 10 (by decide) (by norm_num at hb ⊢; omega)
  have hpre : (str "/tmp/seqnum_cl.").length = 15 := by decide
  have hsize : CLIENT_FIFO_NAME_LEN = 39 := by decide
  refine snprintf_of_lt ?_
  rw [clientFifoText, List.length_append, hpre, hsize]
  omega

/-- Distinct pids have distinct FIFOs. -/
theorem clientFifoName_injective : Function.Injective clientFifoName := by
  intro p q h
  rw [clientFifoName_eq, clientFifoName_eq] at h
  exact BitVec.eq_of_toInt_eq (intNumeral_injective (List.append_cancel_left h))

/-! ## The program -/

/-- The system call the server is at. The descriptor of the client's FIFO is `fd`. -/
inductive Pc where
  | read
  | openClient (req : Request)
  | write (req : Request) (fd : ℕ)
  | close (req : Request) (fd : ℕ)
deriving DecidableEq, Repr

/-- What the call returned; `none` stands for `-1`. -/
inductive Result where
  | read (chunk : Option (List UInt8))
  | openClient (fd : Option ℕ)
  | write (count : Option ℕ)
  | close (ok : Bool)
deriving DecidableEq, Repr

/-- What became of a request: its client's FIFO could not be opened, or a response was computed
and written (or not, if the write failed). -/
inductive Outcome where
  | skipped
  | responded (res : Response) (written : Bool)
deriving DecidableEq, Repr

structure Handled where
  req : Request
  outcome : Outcome
deriving DecidableEq, Repr

/-- The server. `handled` is a history of the requests it has dealt with, not a variable of the
program; `stderr` is what it has printed there. -/
structure Server where
  pc : Pc
  seqNum : BitVec 32
  stderr : List (List UInt8)
  handled : List Handled
deriving DecidableEq, Repr

/-- The server at the head of its loop for the first time. -/
def Server.start : Server := ⟨.read, 0, [], []⟩

/-- The program: what it does with the result of the call it is at, up to its next call. -/
def Server.next (s : Server) (r : Result) : Option Server :=
  match s.pc, r with
  | .read, .read chunk =>
      match chunk with
      | some bs =>
          if bs.length ≠ sizeofRequest then
            some { s with stderr := s.stderr ++ [str "Error reading request: discarding\n"] }
          else some { s with pc := .openClient (Request.ofBytes bs) }
      | none => some { s with stderr := s.stderr ++ [str "Error reading request: discarding\n"] }
  | .openClient req, .openClient fd =>
      match fd with
      | none =>
          some { s with
            pc := .read
            stderr := s.stderr ++ [str "open " ++ clientFifoName req.pid]
            handled := s.handled ++ [⟨req, .skipped⟩] }
      | some fd => some { s with pc := .write req fd }
  | .write req fd, .write count =>
      let ok := decide (count = some sizeofResponse)
      -- the server goes on to `close` and counts the request also if the write failed
      some { s with
        pc := .close req fd
        stderr := if ok then s.stderr
          else s.stderr ++ [str "Error writing to the FIFO " ++ clientFifoName req.pid ++ str "\n"]
        handled := s.handled ++ [⟨req, .responded ⟨s.seqNum⟩ ok⟩] }
  | .close req _, .close ok =>
      some { s with
        pc := .read
        stderr := if ok then s.stderr else s.stderr ++ [str "close"]
        seqNum := s.seqNum + req.seqLen }
  | _, _ => none

/-- The server with an arbitrary environment. -/
def program : TransSys Server Result where
  Init s := s = Server.start
  step := Server.next

/-! ## What a step can do -/

/-- The steps of the program, one constructor for each way a call can turn out. -/
inductive Server.Step (s : Server) : Result → Server → Prop where
  | discard (chunk : Option (List UInt8)) (err : List (List UInt8)) (hpc : s.pc = .read)
      (hbad : ∀ bs, chunk = some bs → bs.length ≠ sizeofRequest) :
      Step s (.read chunk) { s with stderr := err }
  | request (bs : List UInt8) (hpc : s.pc = .read) (hlen : bs.length = sizeofRequest) :
      Step s (.read (some bs)) { s with pc := .openClient (Request.ofBytes bs) }
  | skip (req : Request) (err : List (List UInt8)) (hpc : s.pc = .openClient req) :
      Step s (.openClient none)
        { s with pc := .read, stderr := err, handled := s.handled ++ [⟨req, .skipped⟩] }
  | opened (req : Request) (fd : ℕ) (hpc : s.pc = .openClient req) :
      Step s (.openClient (some fd)) { s with pc := .write req fd }
  | respond (req : Request) (fd : ℕ) (count : Option ℕ) (err : List (List UInt8))
      (hpc : s.pc = .write req fd) :
      Step s (.write count)
        { s with
          pc := .close req fd
          stderr := err
          handled := s.handled
            ++ [⟨req, .responded ⟨s.seqNum⟩ (decide (count = some sizeofResponse))⟩] }
  | close (req : Request) (fd : ℕ) (ok : Bool) (err : List (List UInt8))
      (hpc : s.pc = .close req fd) :
      Step s (.close ok) { s with pc := .read, stderr := err, seqNum := s.seqNum + req.seqLen }

theorem Server.step_of_next {s t : Server} {r : Result} (h : s.next r = some t) : Step s r t := by
  unfold Server.next at h
  split at h
  · rename_i chunk hpc
    split at h
    · rename_i bs
      split at h
      · rename_i hlen
        obtain rfl := Option.some.inj h
        exact .discard (some bs) _ hpc fun bs' hbs' => Option.some.inj hbs' ▸ hlen
      · rename_i hlen
        obtain rfl := Option.some.inj h
        exact .request bs hpc (not_not.mp hlen)
    · obtain rfl := Option.some.inj h
      exact .discard none _ hpc fun bs' hbs' => nomatch hbs'
  · rename_i req fd hpc
    split at h
    · obtain rfl := Option.some.inj h
      exact .skip req _ hpc
    · obtain rfl := Option.some.inj h
      exact .opened req _ hpc
  · rename_i req fd count hpc
    obtain rfl := Option.some.inj h
    exact .respond req fd count _ hpc
  · rename_i req fd ok hpc
    obtain rfl := Option.some.inj h
    exact .close req fd ok _ hpc
  · cases h

/-! ## The counter -/

/-- How much a request moves the counter. -/
def Handled.counted (e : Handled) : ℤ :=
  match e.outcome with
  | .skipped => 0
  | .responded _ _ => e.req.seqLen.toInt

def total (es : List Handled) : ℤ := (es.map Handled.counted).sum

/-- The numbers a served request entitles its client to. -/
def Handled.window? (e : Handled) : Option Window :=
  match e.outcome with
  | .skipped => none
  | .responded res _ => some ⟨res.seqNum.toNat, e.req.seqLen.toInt⟩

def windows (es : List Handled) : List Window := es.filterMap Handled.window?

theorem total_concat (es : List Handled) (e : Handled) :
    total (es ++ [e]) = total es + e.counted := by
  simp [total]

/-- The requests whose length is in the counter: all of them, except that between a response and
the `close` after it the last one is not counted yet. -/
def Server.settled (s : Server) : List Handled :=
  match s.pc with
  | .close _ _ => s.handled.dropLast
  | _ => s.handled

theorem Server.settled_eq {s : Server} (h : ∀ req fd, s.pc ≠ .close req fd) :
    s.settled = s.handled := by
  unfold Server.settled
  split
  · rename_i req fd hpc
    exact absurd hpc (h req fd)
  · rfl

/-- Every response is, modulo `2 ^ 32`, the sum of the lengths counted before it. -/
def PrefixSums (es : List Handled) : Prop :=
  ∀ pre e post res ok, es = pre ++ e :: post → e.outcome = .responded res ok →
    (res.seqNum.toNat : ℤ) ≡ total pre [ZMOD 2 ^ 32]

structure ServerInv (s : Server) : Prop where
  current : ∀ req fd, s.pc = .close req fd →
    ∃ ok, s.handled = s.settled ++ [⟨req, .responded ⟨s.seqNum⟩ ok⟩]
  chained : Window.Chained (2 ^ 32) (windows s.settled ++ [Window.counter s.seqNum.toNat])
  counter : (s.seqNum.toNat : ℤ) ≡ total s.settled [ZMOD 2 ^ 32]
  sums : PrefixSums s.handled

/-- Between a response and the `close` after it, the last window starts at the counter. -/
theorem ServerInv.windows_close {s : Server} (h : ServerInv s) {req : Request} {fd : ℕ}
    (hpc : s.pc = .close req fd) :
    windows s.handled = windows s.settled ++ [⟨s.seqNum.toNat, req.seqLen.toInt⟩] := by
  obtain ⟨written, hcur⟩ := h.current req fd hpc
  rw [hcur]
  simp [windows, Handled.window?]

theorem serverInv_start : ServerInv Server.start where
  current := by intro req fd h; cases h
  chained := Window.chained_counter _ _
  counter := by decide
  sums := by intro pre e post res ok h; simp [Server.start] at h

/-- A new entry at the end of the history: the earlier ones keep what was before them. -/
theorem PrefixSums.concat {es : List Handled} {e : Handled} (h : PrefixSums es)
    (he : ∀ res ok, e.outcome = .responded res ok →
      (res.seqNum.toNat : ℤ) ≡ total es [ZMOD 2 ^ 32]) : PrefixSums (es ++ [e]) := by
  intro pre e' post res ok heq hout
  rcases List.eq_nil_or_concat post with rfl | ⟨post', x, rfl⟩
  · have hinj := List.append_inj' heq rfl
    obtain rfl := hinj.1
    obtain rfl : e = e' := by simpa using hinj.2
    exact he res ok hout
  · have heq' : es ++ [e] = (pre ++ e' :: post') ++ [x] := by simpa using heq
    exact h pre e' post' res ok (List.append_inj' heq' rfl).1 hout

theorem ServerInv.step {s t : Server} {r : Result} (h : ServerInv s) (hstep : Server.Step s r t) :
    ServerInv t := by
  cases hstep with
  | discard chunk err hpc hbad => exact ⟨h.current, h.chained, h.counter, h.sums⟩
  | request bs hpc hlen =>
      have hset : s.settled = s.handled := Server.settled_eq (by simp [hpc])
      refine ⟨(by intro req fd hpc'; cases hpc'), ?_, ?_, h.sums⟩
      · exact hset ▸ h.chained
      · exact hset ▸ h.counter
  | skip req err hpc =>
      have hset : s.settled = s.handled := Server.settled_eq (by simp [hpc])
      refine ⟨(by intro req fd hpc'; cases hpc'), ?_, ?_,
        h.sums.concat fun _ _ hout => nomatch hout⟩
      · show Window.Chained _ (windows (s.handled ++ [⟨req, .skipped⟩]) ++ _)
        have hwin : windows (s.handled ++ [⟨req, .skipped⟩]) = windows s.settled := by
          simp [windows, hset, Handled.window?]
        rw [hwin]
        exact h.chained
      · show _ ≡ total (s.handled ++ [⟨req, .skipped⟩]) [ZMOD _]
        rw [total_concat, ← hset]
        simpa [Handled.counted] using h.counter
  | opened req fd hpc =>
      have hset : s.settled = s.handled := Server.settled_eq (by simp [hpc])
      refine ⟨(by intro req fd hpc'; cases hpc'), ?_, ?_, h.sums⟩
      · exact hset ▸ h.chained
      · exact hset ▸ h.counter
  | respond req fd count err hpc =>
      have hset : s.settled = s.handled := Server.settled_eq (by simp [hpc])
      have hcounter := hset ▸ h.counter
      have hset' : ∀ e : Handled, Server.settled ⟨.close req fd, s.seqNum, err, s.handled ++ [e]⟩
          = s.settled := by
        intro e
        rw [hset]
        exact List.dropLast_concat
      refine ⟨?_, ?_, ?_, h.sums.concat ?_⟩
      · intro req' fd' hpc'
        cases hpc'
        rw [hset', hset]
        exact ⟨_, rfl⟩
      · rw [hset']
        exact h.chained
      · rw [hset']
        exact h.counter
      · intro res ok hout
        obtain ⟨rfl, -⟩ := Outcome.responded.inj hout
        exact hcounter
  | close req fd ok err hpc =>
      -- the pending length enters the counter, and the last entry becomes settled
      obtain ⟨written, hcur⟩ := h.current req fd hpc
      refine ⟨(by intro req fd hpc'; cases hpc'), ?_, ?_, h.sums⟩
      · show Window.Chained _ (windows s.handled ++ _)
        rw [h.windows_close hpc]
        exact h.chained.grant (toNat_add_modEq s.seqNum req.seqLen)
      · show _ ≡ total s.handled [ZMOD _]
        rw [hcur, total_concat]
        calc ((s.seqNum + req.seqLen).toNat : ℤ)
            ≡ s.seqNum.toNat + req.seqLen.toInt [ZMOD 2 ^ 32] := toNat_add_modEq _ _
          _ ≡ total s.settled + req.seqLen.toInt [ZMOD 2 ^ 32] := h.counter.add_right _

theorem serverInv_reachable {s : Server} (h : program.Reachable s) : ServerInv s :=
  h.invariant (fun _ h₀ => h₀ ▸ serverInv_start)
    fun _ _ _ hs hstep => hs.step (Server.step_of_next hstep)

/-- The windows of all served requests form a chain, also between a response and its `close`. -/
theorem ServerInv.chained_windows {s : Server} (h : ServerInv s) :
    Window.Chained (2 ^ 32) (windows s.handled) := by
  by_cases hclose : ∃ req fd, s.pc = .close req fd
  · obtain ⟨req, fd, hpc⟩ := hclose
    rw [h.windows_close hpc]
    exact (h.chained.grant (toNat_add_modEq s.seqNum req.seqLen)).of_counter
  · push Not at hclose
    rw [← Server.settled_eq hclose]
    exact h.chained.of_counter

/-- **When the server hands out a number twice.** In every run, whatever the requests and the
results of the system calls, the ranges of the served requests are disjoint if and only if the
lengths served between two of them never bring the counter back into the first one; and that is so
in every run without negative lengths whose lengths sum to less than `2 ^ 31`. -/
theorem served_disjoint_iff {s : Server} (h : program.Reachable s) :
    (Window.PairwiseDisjoint (2 ^ 32) (windows s.handled)
      ↔ Window.NoReturn (2 ^ 32) (windows s.handled))
    ∧ ((∀ w ∈ windows s.handled, 0 ≤ w.len) → Window.positiveSum (windows s.handled) < 2 ^ 31 →
        Window.PairwiseDisjoint (2 ^ 32) (windows s.handled)) := by
  have hiff := (serverInv_reachable h).chained_windows.pairwiseDisjoint_iff (by norm_num)
  refine ⟨hiff, fun hpos hsum => hiff.mpr ?_⟩
  exact Window.noReturn_of_nonneg (by norm_num) hpos (by omega)

/-- The results with which the server serves a client with the argument `arg` and no call fails. -/
def servedResults (pid : BitVec 32) (arg : List UInt8) : List Result :=
  [.read (some (Request.bytes ⟨pid, atoi arg⟩)), .openClient (some 5), .write (some 4), .close true]

theorem served_disjoint_two : ∃ s, program.Reachable s
    ∧ windows s.handled = [⟨0, 5⟩, ⟨5, 3⟩]
    ∧ Window.PairwiseDisjoint (2 ^ 32) (windows s.handled) := by
  have hreach : program.Reachable ((program.run Server.start
      (servedResults 101 (str "5") ++ servedResults 102 (str "3"))).get (by decide)) :=
    ⟨Server.start, _, rfl, (Option.some_get _).symm⟩
  exact ⟨_, hreach, by decide, (served_disjoint_iff hreach).2 (by decide) (by decide)⟩

/-- Three clients with the arguments 5, -5 and 5: the first and the third get the same numbers. -/
theorem served_twice : ∃ s, program.Reachable s
    ∧ windows s.handled = [⟨0, 5⟩, ⟨5, -5⟩, ⟨0, 5⟩]
    ∧ Window.positiveSum (windows s.handled) < 2 ^ 31
    ∧ ¬ Window.PairwiseDisjoint (2 ^ 32) (windows s.handled) := by
  have hwin : windows ((program.run Server.start (servedResults 101 (str "5")
      ++ servedResults 102 (str "-5") ++ servedResults 103 (str "5"))).get (by decide)).handled
      = [⟨0, 5⟩, ⟨5, -5⟩, ⟨0, 5⟩] := by decide
  refine ⟨_, ⟨Server.start, _, rfl, (Option.some_get _).symm⟩, hwin, ?_, ?_⟩
  · rw [hwin]
    decide
  · rw [hwin]
    intro hdis
    exact hdis 0 2 (by decide) (by decide) ⟨0, 0, by decide, by decide, by decide, by decide, rfl⟩

end Tlpi.FifoSeqnum
