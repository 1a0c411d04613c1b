import Tlpi.PipesAndFifo.SeqnumServer

set_option autoImplicit false

/-! # The FIFO sequence-number client (pipes_and_fifo/fifo_seqnum_client.c)

The client creates its own FIFO, sends one request to the server's FIFO, opens its own FIFO and
reads one response from it. As for the server, the program is a function of the results of its
system calls: `Client.next pid arg c r` is the client after the call it is at has returned `r`.
-/

namespace Tlpi.FifoSeqnum

open Decimal

/-- `(argc > 1) ? atoi(argv[1]) : 1`. -/
def requestLen : Option (List UInt8) → BitVec 32
  | none => 1
  | some arg => atoi arg

/-- The request of the client with this pid and this argument. -/
def request (pid : BitVec 32) (arg : Option (List UInt8)) : Request := ⟨pid, requestLen arg⟩

/-- Every `int` is the length of some client's request: its unsigned numeral narrows to it. -/
theorem requestLen_surjective (n : BitVec 32) : ∃ arg, requestLen (some arg) = n := by
  refine ⟨numeral n.toNat, ?_⟩
  have hval := @atoi_digits_toInt (numeral n.toNat) [] (numeral_all_isDigit n.toNat)
    (numeral_ne_nil n.toNat) (by simp)
  rw [List.append_nil, value_numeral, if_pos (by have := n.isLt; omega)] at hval
  refine BitVec.eq_of_toInt_eq ?_
  rw [requestLen, hval, BitVec.toInt_eq_toNat_bmod]

/-- The call the client is at; `exit` runs the functions registered with `atexit`, and `finish`
leaves the rest of the termination to the kernel. -/
inductive ClientPc where
  | mkfifo
  | atexit
  | openServer
  | write
  | openClient
  | read (clientFd : ℕ)
  | exit (status : ℕ)
  | finish (status : ℕ)
  | terminated
deriving DecidableEq, Repr

/-- What the call returned; `none` stands for `-1`, except that `mkfifo` has an error or none. -/
inductive ClientResult where
  | mkfifo (error : Option Errno)
  | atexit (ok : Bool)
  | openServer (ok : Bool)
  | write (count : Option ℕ)
  | openClient (clientFd : Option ℕ)
  | read (chunk : Option (List UInt8))
  | exit
deriving DecidableEq, Repr

/-- `removeAtExit` says that `removeFifo` has been registered with `atexit`. -/
structure Client where
  pc : ClientPc
  removeAtExit : Bool
  stdout : List UInt8
  stderr : List UInt8
deriving DecidableEq, Repr

/-- The client up to its first call. The usage message starts with `argv[0]`, which is left out. -/
def Client.start (arg : Option (List UInt8)) : Client :=
  if arg = some (str "-help") then ⟨.exit 1, false, [], str " [seq-len]\n"⟩
  else ⟨.mkfifo, false, [], []⟩

/-- A message on `stderr`, followed by `exit(1)`. -/
def Client.fail (c : Client) (message : List UInt8) : Client :=
  { c with pc := .exit 1, stderr := c.stderr ++ message }

/-- `printf("%d\n", seqNum)`. -/
def printedLine (seqNum : BitVec 32) : List UInt8 := intNumeral seqNum.toInt ++ str "\n"

def SERVER_FIFO : List UInt8 := str "/tmp/seqnum_server"

def Client.next (pid : BitVec 32) (c : Client) (r : ClientResult) : Option Client :=
  match c.pc, r with
  | .mkfifo, .mkfifo error =>
      match error with
      | none => some { c with pc := .atexit }
      -- `errno != EEXIST`: an existing FIFO is no error
      | some .EEXIST => some { c with pc := .atexit }
      | some _ => some (c.fail (str "mkfifo " ++ clientFifoName pid))
  | .atexit, .atexit ok =>
      if ok then some { c with pc := .openServer, removeAtExit := true }
      else some (c.fail (str "atexit"))
  | .openServer, .openServer ok =>
      if ok then some { c with pc := .write } else some (c.fail (str "open " ++ SERVER_FIFO))
  | .write, .write count =>
      if count = some sizeofRequest then some { c with pc := .openClient }
      else some (c.fail (str "cant write to the server"))
  | .openClient, .openClient clientFd =>
      match clientFd with
      | none => some (c.fail (str "open " ++ clientFifoName pid))
      | some fd => some { c with pc := .read fd }
  | .read _, .read chunk =>
      match chunk with
      | none => some (c.fail (str "cant read response from server"))
      | some bs =>
          if bs.length = sizeofResponse then
            some { c with
              pc := .exit 0
              stdout := c.stdout ++ printedLine (Response.ofBytes bs).seqNum }
          else some (c.fail (str "cant read response from server"))
  | .exit status, .exit => some { c with pc := .finish status }
  | _, _ => none

/-! ## What a step can do -/

/-- The client will not write to the server any more. -/
def ClientPc.pastWrite : ClientPc → Bool
  | .mkfifo => false
  | .atexit => false
  | .openServer => false
  | .write => false
  | _ => true

/-- The client has not called `exit` yet. -/
def ClientPc.running : ClientPc → Bool
  | .exit _ => false
  | .finish _ => false
  | .terminated => false
  | _ => true

/-- A step that prints nothing and does not go back before the `write` or the `exit`. -/
structure Client.Quiet (c d : Client) : Prop where
  stdout : d.stdout = c.stdout
  pastWrite : c.pc.pastWrite = true → d.pc.pastWrite = true
  running : d.pc.running = true → c.pc.running = true

theorem Client.Quiet.refl (c : Client) : Quiet c c := ⟨rfl, id, id⟩

theorem Client.quiet_fail (c : Client) (message : List UInt8) : Quiet c (c.fail message) where
  stdout := rfl
  pastWrite := fun _ => rfl
  running := by intro h; cases h

/-- A call whose failure is reported before the exit: it is quiet if its success is. -/
theorem Client.quiet_checked {c d e : Client} {message : List UInt8} {P : Prop} [Decidable P]
    (he : Quiet c e) (h : (if P then some e else some (c.fail message)) = some d) :
    Quiet c d := by
  split at h
  · obtain rfl := Option.some.inj h
    exact he
  · obtain rfl := Option.some.inj h
    exact c.quiet_fail message

/-- Only the read of a whole response prints. -/
theorem Client.quiet_of_next {pid : BitVec 32} {c d : Client} {r : ClientResult}
    (h : c.next pid r = some d) (hread : ∀ bs, r = .read (some bs) → bs.length ≠ sizeofResponse) :
    Quiet c d := by
  unfold Client.next at h
  split at h
  · rename_i error hpc
    split at h
    · obtain rfl := Option.some.inj h
      exact ⟨rfl, by simp [hpc, ClientPc.pastWrite], by simp [hpc, ClientPc.running]⟩
    · obtain rfl := Option.some.inj h
      exact ⟨rfl, by simp [hpc, ClientPc.pastWrite], by simp [hpc, ClientPc.running]⟩
    · obtain rfl := Option.some.inj h
      exact c.quiet_fail _
  · rename_i ok hpc
    refine quiet_checked ?_ h
    exact ⟨rfl, by simp [hpc, ClientPc.pastWrite], by simp [hpc, ClientPc.running]⟩
  · rename_i ok hpc
    refine quiet_checked ?_ h
    exact ⟨rfl, by simp [hpc, ClientPc.pastWrite], by simp [hpc, ClientPc.running]⟩
  · rename_i count hpc
    refine quiet_checked ?_ h
    exact ⟨rfl, by simp [hpc, ClientPc.pastWrite], by simp [hpc, ClientPc.running]⟩
  · rename_i clientFd hpc
    split at h
    · obtain rfl := Option.some.inj h
      exact c.quiet_fail _
    · obtain rfl := Option.some.inj h
      exact ⟨rfl, fun _ => rfl, by simp [hpc, ClientPc.running]⟩
  · rename_i fd chunk hpc
    split at h
    · obtain rfl := Option.some.inj h
      exact c.quiet_fail _
    · rename_i bs
      split at h
      · rename_i hlen
        exact absurd hlen (hread bs rfl)
      · obtain rfl := Option.some.inj h
        exact c.quiet_fail _
  · rename_i status hpc
    obtain rfl := Option.some.inj h
    exact ⟨rfl, fun _ => rfl, fun hrun => nomatch hrun⟩
  · cases h

theorem Client.sent_of_next {pid : BitVec 32} {c d : Client} {count : Option ℕ}
    (h : c.next pid (.write count) = some d) :
    c.pc.pastWrite = false ∧ d.pc.pastWrite = true := by
  cases hpc : c.pc <;> simp only [Client.next, hpc, reduceCtorEq] at h
  refine ⟨rfl, ?_⟩
  split at h
  · obtain rfl := Option.some.inj h
    rfl
  · obtain rfl := Option.some.inj h
    rfl

/-- The read of a whole response prints its number, and the client exits. -/
theorem Client.printed_of_next {pid : BitVec 32} {c d : Client} {bs : List UInt8}
    (h : c.next pid (.read (some bs)) = some d) (hlen : bs.length = sizeofResponse) :
    c.pc.running = true ∧ d.pc = .exit 0
      ∧ d.stdout = c.stdout ++ printedLine (Response.ofBytes bs).seqNum := by
  cases hpc : c.pc <;> simp only [Client.next, hpc, reduceCtorEq] at h
  rw [if_pos hlen] at h
  obtain rfl := Option.some.inj h
  exact ⟨rfl, rfl, rfl⟩

end Tlpi.FifoSeqnum
