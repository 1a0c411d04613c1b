import Tlpi.Sockets.StreamSockXfr

set_option autoImplicit false

/-! # The exit status of the transfer client (sockets/stream_sock_xfr_client.c)

The client copies its standard input to the socket, chunk by chunk, and is to exit with status 0 if
all went well. After the loop it looks for a failed `read` with `numRead == 1`, where the server has
`numRead == -1`; a failed `read` is taken for the end of the input.

Here a run of the client is given by what its calls return. It is a run of `StreamXfr.Client` too,
which has no exit status.
-/

namespace Tlpi.StreamXfrClient

open StreamXfr

/-- One round of the loop: the chunk `read` gives, and what `write` returns for it; `none` is -1. -/
structure Round where
  chunk : List UInt8
  pos : 0 < chunk.length
  le : chunk.length ≤ BUF_SIZE
  written : Option ℕ
  written_le : ∀ n ∈ written, n ≤ chunk.length

/-- What of the chunk got into the socket. -/
def Round.sent (r : Round) : List UInt8 := r.chunk.take (r.written.getD 0)

/-- The last `read`. -/
inductive Ending where
  | eof
  | error
deriving DecidableEq, Repr

/-- What the last `read` returns. -/
def Ending.numRead : Ending → ℤ
  | eof => 0
  | error => -1

/-- The end of a client: its exit status, what it says on standard error, whether it has met the end
of its input, and the bytes it has read and written. -/
structure Outcome where
  status : ℕ
  stderr : List UInt8
  eof : Bool
  read : List UInt8
  sent : List UInt8
deriving DecidableEq, Repr

/-- The loop, with what has been read and sent so far, and the test after it. -/
def copy (read sent : List UInt8) : List Round → Ending → Outcome
  | [], ending =>
      let eof := decide (ending = .eof)
      -- a failed `read` has returned -1
      if ending.numRead = 1 then ⟨1, str "read", eof, read, sent⟩
      else ⟨0, [], eof, read, sent⟩
  | r :: rounds, ending =>
      if r.written ≠ some r.chunk.length then
        ⟨1, str "partial/failed read", false, read ++ r.chunk, sent ++ r.sent⟩
      else copy (read ++ r.chunk) (sent ++ r.sent) rounds ending

/-- The program, with whether `socket` and `connect` succeed. -/
def main (socket connect : Bool) (rounds : List Round) (ending : Ending) : Outcome :=
  if socket = false then ⟨1, str "socket", false, [], []⟩
  else if connect = false then ⟨1, str "connect", false, [], []⟩
  else copy [] [] rounds ending

/-! ## The exit status -/

/-- Status 0 means that all of the input was read, and all that was read was sent. -/
def Honest (o : Outcome) : Prop := o.status = 0 ↔ o.eof = true ∧ o.sent = o.read

/-- A `read` fails before any `write` is short or fails. -/
def ReadFails (socket connect : Bool) (rounds : List Round) (ending : Ending) : Prop :=
  socket = true ∧ connect = true ∧ (∀ r ∈ rounds, r.written = some r.chunk.length) ∧
    ending = .error

theorem Round.sent_of_full {r : Round} (h : r.written = some r.chunk.length) :
    r.sent = r.chunk := by
  rw [Round.sent, h, Option.getD_some, List.take_length]

theorem numRead_ne_one (ending : Ending) : ending.numRead ≠ 1 := by
  cases ending <;> decide

theorem honest_copy_iff (bytes : List UInt8) (rounds : List Round) (ending : Ending) :
    Honest (copy bytes bytes rounds ending) ↔
      ¬ ((∀ r ∈ rounds, r.written = some r.chunk.length) ∧ ending = .error) := by
  induction rounds generalizing bytes with
  | nil =>
      rw [copy, if_neg (numRead_ne_one ending)]
      cases ending <;> simp [Honest]
  | cons r rounds ih =>
      rw [copy, List.forall_mem_cons]
      by_cases hfull : r.written = some r.chunk.length
      · rw [if_neg (not_not.mpr hfull), Round.sent_of_full hfull, ih (bytes ++ r.chunk)]
        simp [hfull]
      · -- the end of the input has not been met
        rw [if_pos hfull]
        simp [Honest, hfull]

/-- **Status 0 and a complete transfer.** The client exits with status 0 exactly if it has met the
end of its input and sent every byte, unless a `read` fails before any `write` was short. -/
theorem honest_iff (socket connect : Bool) (rounds : List Round) (ending : Ending) :
    Honest (main socket connect rounds ending) ↔ ¬ ReadFails socket connect rounds ending := by
  cases socket with
  | false => simp [main, Honest, ReadFails]
  | true =>
      cases connect with
      | false => simp [main, Honest, ReadFails]
      | true =>
          have hmain : main true true rounds ending = copy [] [] rounds ending := rfl
          rw [hmain, honest_copy_iff, ReadFails]
          simp

/-- A chunk that is sent and one that is sent in part. -/
def sampleRounds : List Round :=
  [⟨str "ab", by decide, by decide, some 2, by decide⟩,
    ⟨str "cd", by decide, by decide, some 1, by decide⟩]

example : main true true sampleRounds .eof =
    ⟨1, str "partial/failed read", false, str "abcd", str "abc"⟩ := by decide

/-- A `read` that fails at once. -/
theorem failed_read_succeeds :
    ¬ ∀ socket connect rounds ending, Honest (main socket connect rounds ending) := by
  intro h
  have hstatus := (h true true [] .error).mp rfl
  exact absurd hstatus.1 (by decide)

/-! ## The run as one of `StreamXfr.Client` -/

/-- The steps of a round. A short `write` puts a piece of the chunk into the socket and ends the
client. -/
def Round.acts (r : Round) : List ClientAct :=
  .read (some r.chunk.length) ::
    if r.written = some r.chunk.length then [.push r.chunk.length]
    else if 0 < r.written.getD 0 then [.push (r.written.getD 0), .writeFails]
    else [.writeFails]

def acts : List Round → Ending → List ClientAct
  | [], .eof => [.read (some 0)]
  | [], .error => [.read none]
  | r :: rounds, ending =>
      r.acts ++ if r.written = some r.chunk.length then acts rounds ending else []

/-- The steps of the program. -/
def mainActs (socket connect : Bool) (rounds : List Round) (ending : Ending) : List ClientAct :=
  if socket = false then [.socket false]
  else if connect = false then [.socket true, .connect false]
  else [.socket true, .connect true] ++ acts rounds ending

/-- A client alone, with the server there. -/
def clientSystem : TransSys Client ClientAct where
  Init c := c.pc = .socket ∧ c.sent = []
  step c a := c.next true a

variable {c : Client} {r : Round} {rest : List UInt8}

theorem step_read (hpc : c.pc = .read) (hrest : c.rest = r.chunk ++ rest) :
    clientSystem.step c (.read (some r.chunk.length))
      = some { c with pc := .write r.chunk, rest := rest } := by
  have hle := r.le
  have hne : r.chunk ≠ [] := List.ne_nil_of_length_pos r.pos
  simp [clientSystem, Client.next, hpc, hrest, hne, hle]

/-- A chunk that is sent completely. -/
theorem run_full (hpc : c.pc = .read) (hrest : c.rest = r.chunk ++ rest)
    (hfull : r.written = some r.chunk.length) :
    clientSystem.run c r.acts = some
      { c with pc := .read, rest := rest, sent := c.sent ++ r.chunk, buf := c.buf ++ r.chunk } := by
  have hne : r.chunk ≠ [] := List.ne_nil_of_length_pos r.pos
  rw [Round.acts, if_pos hfull, TransSys.run_cons, step_read hpc hrest, Option.bind_some]
  simp [TransSys.run, clientSystem, Client.next, hne]

/-- A chunk that is not sent completely. -/
theorem run_short (hpc : c.pc = .read) (hrest : c.rest = r.chunk ++ rest)
    (hshort : r.written ≠ some r.chunk.length) :
    ∃ c', clientSystem.run c r.acts = some c' ∧ c'.pc = .exited ∧ c'.sent = c.sent ++ r.sent := by
  rw [Round.acts, if_neg hshort, TransSys.run_cons, step_read hpc hrest, Option.bind_some]
  by_cases hpos : 0 < r.written.getD 0
  · have hlt : r.written.getD 0 < r.chunk.length := by
      cases hwritten : r.written with
      | none => simp [hwritten] at hpos
      | some n =>
          have hle := r.written_le n hwritten
          have hne : n ≠ r.chunk.length := fun h => hshort (by rw [hwritten, h])
          simp only [Option.getD_some]
          omega
    rw [if_pos hpos]
    have hpush : clientSystem.step { c with pc := .write r.chunk, rest := rest }
        (.push (r.written.getD 0)) = some
        { c with
          pc := .write (r.chunk.drop (r.written.getD 0)), rest := rest
          sent := c.sent ++ r.sent, buf := c.buf ++ r.sent } := by
      simp [clientSystem, Client.next, hpos, hlt.le, hlt.ne, Round.sent]
    rw [TransSys.run_cons, hpush]
    exact ⟨_, rfl, rfl, rfl⟩
  · rw [if_neg hpos]
    have hnone : r.sent = [] := by
      rw [Round.sent, Nat.eq_zero_of_not_pos hpos, List.take_zero]
    exact ⟨_, rfl, rfl, by rw [hnone, List.append_nil]; rfl⟩

theorem run_acts (hpc : c.pc = .read) {rounds : List Round} (ending : Ending)
    (hrest : c.rest = (rounds.map Round.chunk).flatten) (bytes : List UInt8) :
    ∃ c', clientSystem.run c (acts rounds ending) = some c' ∧ c'.pc = .exited ∧
      c'.sent = (copy bytes c.sent rounds ending).sent := by
  induction rounds generalizing c bytes with
  | nil =>
      rw [List.map_nil, List.flatten_nil] at hrest
      rw [copy, if_neg (numRead_ne_one ending)]
      cases ending <;> simp [acts, TransSys.run, clientSystem, Client.next, Client.exit, hpc, hrest]
  | cons r rounds ih =>
      rw [List.map_cons, List.flatten_cons] at hrest
      rw [acts, copy]
      by_cases hfull : r.written = some r.chunk.length
      · rw [if_pos hfull, if_neg (not_not.mpr hfull), TransSys.run_append, run_full hpc hrest hfull,
          Option.bind_some, Round.sent_of_full hfull]
        exact ih rfl rfl (bytes ++ r.chunk)
      · rw [if_neg hfull, if_pos hfull, List.append_nil]
        exact run_short hpc hrest hfull

/-- **The client of the transfer.** What the program sends is what the client of the whole system
sends, on the same input and with the same results of its calls. -/
theorem run_mainActs (socket connect : Bool) {rounds : List Round} (ending : Ending)
    (hinit : clientSystem.Init c) (hrest : c.rest = (rounds.map Round.chunk).flatten) :
    ∃ c', clientSystem.run c (mainActs socket connect rounds ending) = some c' ∧
      c'.pc = .exited ∧ c'.sent = (main socket connect rounds ending).sent := by
  obtain ⟨hpc, hsent⟩ := hinit
  cases socket with
  | false => simp [mainActs, main, TransSys.run, clientSystem, Client.next, Client.exit, hpc, hsent]
  | true =>
      cases connect with
      | false =>
          simp [mainActs, main, TransSys.run, clientSystem, Client.next, Client.exit, hpc, hsent]
      | true =>
          have hread : ({ c with pc := .read, connected := true } : Client).pc = .read := rfl
          obtain ⟨c', hrun, hexited, hc'⟩ := run_acts hread ending hrest []
          refine ⟨c', ?_, hexited, ?_⟩
          · rw [← hrun]
            simp [mainActs, TransSys.run, clientSystem, Client.next, hpc]
          · rw [hc', hsent]
            rfl

end Tlpi.StreamXfrClient
