import Tlpi.Lib.Window
import Tlpi.Posix.Strtol
import Tlpi.Sockets.ReadLine

set_option autoImplicit false

/-! # The TCP sequence-number server (sockets/net_stream_sock_seqnum_server.c)

The service loop of the server: accept a connection, read a line with the requested length,
answer with the current sequence number as a line of text, and add the length. One pass of the
loop is `serve`; what the environment contributes to a pass (the outcome of every system call) is
a `Connection`. `pass_cases` says once what a pass can do; the results about whole runs are
derived from it.
-/

namespace Tlpi.NetSeqnum

open Decimal

/-- `INT_LEN` of net_stream_sock_seqnum.h. -/
def INT_LEN : ℕ := 30

def NI_MAXHOST : ℕ := 1025

def NI_MAXSERV : ℕ := 32

def ADDRSTRLEN : ℕ := NI_MAXHOST + NI_MAXSERV + 10

/-- What the environment does in one pass of the service loop. -/
structure Connection where
  /-- The descriptor `accept` returns, `none` for `-1`. -/
  accept : Option ℕ
  /-- Host and service found by `getnameinfo`, `none` if it fails. -/
  nameinfo : Option (List UInt8 × List UInt8)
  /-- The results of the reads on the connection. -/
  input : Stream
  /-- The number of bytes `write` reports, `none` for `-1`. -/
  write : Option ℕ
  /-- Whether the last `close` succeeds. -/
  close : Bool

/-- What the server does to the outside. -/
inductive Event where
  | printf (text : List UInt8)
  | stderr (text : List UInt8)
  | perror (text : List UInt8)
  | write (fd : ℕ) (data : List UInt8) (result : Option ℕ)
deriving DecidableEq, Repr

/-- An accepted request: the counter when it was answered, the length parsed, the answer. -/
structure Grant where
  seqNum : BitVec 32
  reqLen : BitVec 32
  seqNumStr : List UInt8
deriving DecidableEq, Repr

/-- The server at the head of its loop. `fds` are the client descriptors that are open;
`granted` is a history of the accepted requests, not a variable of the program. -/
structure Server where
  seqNum : BitVec 32
  reqLenStr : Mem
  fds : List ℕ
  exited : Bool
  log : List Event
  granted : List Grant

/-- The data of a call of `write`. -/
def Event.written? : Event → Option (List UInt8)
  | .write _ data _ => some data
  | _ => none

namespace Server

/-- What the server has written to its clients' sockets, call by call. -/
def writes (s : Server) : List (List UInt8) := s.log.filterMap Event.written?

def emit (s : Server) (e : Event) : Server := { s with log := s.log ++ [e] }

/-- `accept` returned the descriptor `fd`. -/
def openFd (s : Server) (fd : ℕ) : Server := { s with fds := fd :: s.fds }

/-- `close(fd)`. The descriptor is released whatever `close` returns. -/
def closeFd (s : Server) (fd : ℕ) : Server := { s with fds := s.fds.erase fd }

def setReqLenStr (s : Server) (mem : Mem) : Server := { s with reqLenStr := mem }

/-- `seqNum += reqLen`, with the request added to the history. -/
def grant (s : Server) (reqLen : BitVec 32) (seqNumStr : List UInt8) : Server :=
  { s with seqNum := s.seqNum + reqLen, granted := s.granted ++ [⟨s.seqNum, reqLen, seqNumStr⟩] }

/-- `exit(EXIT_FAILURE)`. -/
def exitFailure (s : Server) : Server := { s with exited := true }

section Fields

variable (s : Server) (e : Event) (fd : ℕ) (mem : Mem) (r : BitVec 32) (text : List UInt8)

@[simp] theorem emit_seqNum : (s.emit e).seqNum = s.seqNum := rfl
@[simp] theorem emit_fds : (s.emit e).fds = s.fds := rfl
@[simp] theorem emit_exited : (s.emit e).exited = s.exited := rfl
@[simp] theorem emit_granted : (s.emit e).granted = s.granted := rfl
@[simp] theorem emit_reqLenStr : (s.emit e).reqLenStr = s.reqLenStr := rfl
@[simp] theorem openFd_seqNum : (s.openFd fd).seqNum = s.seqNum := rfl
@[simp] theorem openFd_fds : (s.openFd fd).fds = fd :: s.fds := rfl
@[simp] theorem openFd_exited : (s.openFd fd).exited = s.exited := rfl
@[simp] theorem openFd_granted : (s.openFd fd).granted = s.granted := rfl
@[simp] theorem openFd_writes : (s.openFd fd).writes = s.writes := rfl
@[simp] theorem openFd_reqLenStr : (s.openFd fd).reqLenStr = s.reqLenStr := rfl
@[simp] theorem closeFd_seqNum : (s.closeFd fd).seqNum = s.seqNum := rfl
@[simp] theorem closeFd_fds : (s.closeFd fd).fds = s.fds.erase fd := rfl
@[simp] theorem closeFd_exited : (s.closeFd fd).exited = s.exited := rfl
@[simp] theorem closeFd_granted : (s.closeFd fd).granted = s.granted := rfl
@[simp] theorem closeFd_writes : (s.closeFd fd).writes = s.writes := rfl
@[simp] theorem setReqLenStr_seqNum : (s.setReqLenStr mem).seqNum = s.seqNum := rfl
@[simp] theorem setReqLenStr_fds : (s.setReqLenStr mem).fds = s.fds := rfl
@[simp] theorem setReqLenStr_exited : (s.setReqLenStr mem).exited = s.exited := rfl
@[simp] theorem setReqLenStr_granted : (s.setReqLenStr mem).granted = s.granted := rfl
@[simp] theorem setReqLenStr_writes : (s.setReqLenStr mem).writes = s.writes := rfl
@[simp] theorem setReqLenStr_reqLenStr : (s.setReqLenStr mem).reqLenStr = mem := rfl
@[simp] theorem grant_seqNum : (s.grant r text).seqNum = s.seqNum + r := rfl
@[simp] theorem grant_fds : (s.grant r text).fds = s.fds := rfl
@[simp] theorem grant_exited : (s.grant r text).exited = s.exited := rfl
@[simp] theorem grant_granted :
    (s.grant r text).granted = s.granted ++ [⟨s.seqNum, r, text⟩] := rfl
@[simp] theorem grant_writes : (s.grant r text).writes = s.writes := rfl
@[simp] theorem exitFailure_seqNum : s.exitFailure.seqNum = s.seqNum := rfl
@[simp] theorem exitFailure_fds : s.exitFailure.fds = s.fds := rfl
@[simp] theorem exitFailure_exited : s.exitFailure.exited = true := rfl
@[simp] theorem exitFailure_granted : s.exitFailure.granted = s.granted := rfl
@[simp] theorem exitFailure_writes : s.exitFailure.writes = s.writes := rfl

@[simp] theorem emit_writes : (s.emit e).writes = s.writes ++ e.written?.toList := by
  unfold emit writes
  rw [List.filterMap_append]
  cases e <;> rfl

end Fields

end Server

/-- The client's address as it is displayed. -/
def addrStr : Option (List UInt8 × List UInt8) → List UInt8
  | some (host, service) =>
      snprintf ADDRSTRLEN (str "(" ++ host ++ str " " ++ service ++ str ")")
  | none => snprintf ADDRSTRLEN (str "(?UNKNOWN?)")

/-- `snprintf(seqNumStr, INT_LEN, "%d\n", seqNum)`: `%d` takes the 32 bits as an `int`. -/
def formatSeqNum (seqNum : BitVec 32) : List UInt8 :=
  snprintf INT_LEN (intNumeral seqNum.toInt ++ [newline])

/-- The part of a pass after the request was parsed and found acceptable. -/
def answer (s : Server) (c : Connection) (cfd : ℕ) (reqLen : BitVec 32) : Server :=
  let seqNumStr := formatSeqNum s.seqNum
  let s := s.emit (.write cfd seqNumStr c.write)
  let s := if c.write ≠ some seqNumStr.length then s.emit (.stderr (str "Error on write")) else s
  let s := s.grant reqLen seqNumStr
  let s := s.closeFd cfd
  if c.close then s else (s.emit (.perror (str "close"))).exitFailure

/-- One pass of the service loop. -/
def serve (s : Server) (c : Connection) : Server :=
  match c.accept with
  | none => s.emit (.stderr (str "accept"))
  | some cfd =>
      let s := s.openFd cfd
      let s := s.emit (.printf (str "Connection from " ++ addrStr c.nameinfo ++ [newline]))
      let line := readLine c.input (some s.reqLenStr) INT_LEN
      let s := s.setReqLenStr (line.buffer.getD s.reqLenStr)
      if line.ret ≤ 0 then s.closeFd cfd
      else
        let reqLen := atoi (s.reqLenStr.cString INT_LEN)
        if reqLen.toInt < 0 then s.closeFd cfd else answer s c cfd reqLen

/-- A pass of the loop if the server still runs. -/
def pass (s : Server) (c : Connection) : Server := if s.exited then s else serve s c

/-- The server before its first connection; `reqLenStr` is uninitialised. -/
def start (init : BitVec 32) (reqLenStr : Mem) : Server := ⟨init, reqLenStr, [], false, [], []⟩

/-- The server after a sequence of connections. -/
def service (init : BitVec 32) (reqLenStr : Mem) (conns : List Connection) : Server :=
  conns.foldl pass (start init reqLenStr)

/-! ## The request of a connection -/

/-- The length requested on a connection, if the connection is accepted, its request can be read
(`readLine` returns a positive count) and the length is not negative. -/
def Connection.request? (c : Connection) : Option (BitVec 32) :=
  let line := readLine c.input (some fun _ => 0) INT_LEN
  let reqLen := atoi ((line.buffer.getD fun _ => 0).cString INT_LEN)
  if c.accept = none ∨ line.ret ≤ 0 ∨ reqLen.toInt < 0 then none else some reqLen

/-! ## One pass -/

/-- The request does not depend on what an earlier pass left in `reqLenStr`. -/
theorem request?_of_buffer (c : Connection) (buf : Mem) (hacc : c.accept ≠ none) :
    c.request? =
      let line := readLine c.input (some buf) INT_LEN
      let reqLen := atoi ((line.buffer.getD buf).cString INT_LEN)
      if line.ret ≤ 0 ∨ reqLen.toInt < 0 then none else some reqLen := by
  have hn : 0 < INT_LEN := by decide
  have hret : (readLine c.input (some fun _ => 0) INT_LEN).ret
      = (readLine c.input (some buf) INT_LEN).ret := by
    rw [readLine_eq _ _ hn, readLine_eq _ _ hn]
    exact lineResult_ret_congr _ _ _ _
  simp only [Connection.request?, hacc, false_or, hret]
  by_cases hle : (readLine c.input (some buf) INT_LEN).ret ≤ 0
  · simp [hle]
  · have hpos : 0 < (readLine c.input (some buf) INT_LEN).ret := by omega
    rw [readLine_cString hpos, readLine_cString (hret ▸ hpos)]

/-- The effect of an accepted request. -/
theorem answer_effect (s : Server) (c : Connection) (cfd : ℕ) (r : BitVec 32) :
    (answer s c cfd r).seqNum = s.seqNum + r
    ∧ (answer s c cfd r).granted = s.granted ++ [⟨s.seqNum, r, formatSeqNum s.seqNum⟩]
    ∧ (answer s c cfd r).writes = s.writes ++ [formatSeqNum s.seqNum]
    ∧ (answer s c cfd r).fds = s.fds.erase cfd
    ∧ (answer s c cfd r).exited = (s.exited || !c.close) := by
  unfold answer
  by_cases hw : c.write = some (formatSeqNum s.seqNum).length <;> cases hc : c.close <;>
    simp [hw, Event.written?]

/-- **What a pass can do.** A rejected connection changes neither the counter nor the history; an
accepted request is recorded with the counter, which then moves on by the length, whether or not
the answer could be written. In both cases the descriptor is closed again. -/
theorem pass_cases (s : Server) (c : Connection) (hs : s.exited = false) :
    (c.request? = none ∧ (pass s c).seqNum = s.seqNum ∧ (pass s c).granted = s.granted
      ∧ (pass s c).writes = s.writes ∧ (pass s c).fds = s.fds ∧ (pass s c).exited = false)
    ∨ (∃ r, c.request? = some r ∧ 0 ≤ r.toInt ∧ (pass s c).seqNum = s.seqNum + r
      ∧ (pass s c).granted = s.granted ++ [⟨s.seqNum, r, formatSeqNum s.seqNum⟩]
      ∧ (pass s c).writes = s.writes ++ [formatSeqNum s.seqNum]
      ∧ (pass s c).fds = s.fds ∧ (pass s c).exited = !c.close) := by
  have hpass : pass s c = serve s c := by simp [pass, hs]
  rw [hpass]
  unfold serve
  cases hacc : c.accept with
  | none =>
      left
      refine ⟨by simp [Connection.request?, hacc], ?_⟩
      simp [hs, Event.written?]
  | some cfd =>
      have hreq := request?_of_buffer c s.reqLenStr (by simp [hacc])
      dsimp only at hreq
      by_cases hret : (readLine c.input (some s.reqLenStr) INT_LEN).ret ≤ 0
      · left
        refine ⟨by simpa [hret] using hreq, ?_⟩
        simp [hret, hs, Event.written?]
      · set r := atoi (((readLine c.input (some s.reqLenStr) INT_LEN).buffer.getD
          s.reqLenStr).cString INT_LEN) with hr
        by_cases hneg : r.toInt < 0
        · left
          refine ⟨by simpa [hneg] using hreq, ?_⟩
          simp [hret, ← hr, hneg, hs, Event.written?]
        · right
          refine ⟨r, by simpa [hret, hneg] using hreq, by omega, ?_⟩
          simp [hret, ← hr, hneg, hs, Event.written?, answer_effect]

/-- The numeral of an `int` has at most eleven characters, so it fits with its newline. -/
theorem seqNum_numeral_length (seqNum : BitVec 32) :
    (intNumeral seqNum.toInt).length + 1 < INT_LEN := by
  have hb := toInt_bounds seqNum
  have hlen := @intNumeral_length_le seqNum.toInt 10 (by decide) (by norm_num at hb ⊢; omega)
  rw [INT_LEN]
  omega

/-- The answer is never cut. -/
theorem formatSeqNum_eq (seqNum : BitVec 32) :
    formatSeqNum seqNum = intNumeral seqNum.toInt ++ [newline] := by
  refine snprintf_of_lt ?_
  rw [List.length_append, List.length_singleton]
  exact seqNum_numeral_length seqNum

/-! ## Whole runs -/

/-- The numbers a grant entitles its client to. -/
def Grant.window (g : Grant) : Window := ⟨g.seqNum.toNat, g.reqLen.toInt⟩

/-- The windows granted so far, followed by the counter. -/
def Server.windows (s : Server) : List Window :=
  s.granted.map Grant.window ++ [Window.counter s.seqNum.toNat]

/-- What every pass keeps. -/
structure Inv (init : BitVec 32) (s : Server) : Prop where
  chained : Window.Chained (2 ^ 32) s.windows
  first : ∀ w ∈ s.windows.head?, w.start = init.toNat
  nonneg : ∀ g ∈ s.granted, 0 ≤ g.reqLen.toInt
  format : ∀ g ∈ s.granted, g.seqNumStr = formatSeqNum g.seqNum
  written : s.writes = s.granted.map Grant.seqNumStr
  closed : s.fds = []

theorem inv_start (init : BitVec 32) (mem : Mem) : Inv init (start init mem) where
  chained := Window.chained_counter _ _
  first := by simp [Server.windows, start, Window.counter]
  nonneg := by simp [start]
  format := by simp [start]
  written := rfl
  closed := rfl

theorem Inv.pass {init : BitVec 32} {s : Server} (h : Inv init s) (c : Connection) :
    Inv init (pass s c) := by
  cases hs : s.exited with
  | true =>
      have hpass : NetSeqnum.pass s c = s := by simp [NetSeqnum.pass, hs]
      rw [hpass]
      exact h
  | false =>
      obtain ⟨-, hseq, hgr, hwr, hfds, -⟩ | ⟨r, -, hr, hseq, hgr, hwr, hfds, -⟩ := pass_cases s c hs
      · have hwin : (NetSeqnum.pass s c).windows = s.windows := by
          simp only [Server.windows, hseq, hgr]
        exact ⟨hwin ▸ h.chained, hwin ▸ h.first, hgr ▸ h.nonneg, hgr ▸ h.format,
          by rw [hwr, hgr, h.written], hfds ▸ h.closed⟩
      · have hwin : (NetSeqnum.pass s c).windows
            = s.granted.map Grant.window ++ [⟨s.seqNum.toNat, r.toInt⟩]
              ++ [Window.counter (s.seqNum + r).toNat] := by
          simp [Server.windows, hseq, hgr, Grant.window]
        refine ⟨?_, ?_, ?_, ?_, ?_, hfds ▸ h.closed⟩
        · rw [hwin]
          exact h.chained.grant (toNat_add_modEq s.seqNum r)
        · -- the first window keeps its start: it is the old first window or the new one
          have hfirst := h.first
          rw [hwin]
          cases hg : s.granted with
          | nil => simpa [Server.windows, hg, Window.counter] using hfirst
          | cons g gs => simpa [Server.windows, hg] using hfirst
        · rw [hgr]
          intro g hg
          rcases List.mem_append.mp hg with hg | hg
          · exact h.nonneg g hg
          · rw [List.mem_singleton.mp hg]
            exact hr
        · rw [hgr]
          intro g hg
          rcases List.mem_append.mp hg with hg | hg
          · exact h.format g hg
          · rw [List.mem_singleton.mp hg]
        · rw [hwr, hgr, h.written, List.map_append, List.map_singleton]

theorem service_concat (init : BitVec 32) (mem : Mem) (conns : List Connection) (c : Connection) :
    service init mem (conns ++ [c]) = pass (service init mem conns) c := by
  simp [service]

theorem inv_service (init : BitVec 32) (mem : Mem) (conns : List Connection) :
    Inv init (service init mem conns) := by
  induction conns using List.reverseRecOn with
  | nil => exact inv_start init mem
  | append_singleton conns c ih =>
      rw [service_concat]
      exact ih.pass c

/-- A run of the service over `conns`, in terms of the requests it accepted. -/
structure ServiceRun (init : BitVec 32) (mem : Mem) (conns : List Connection) : Prop where
  /-- An accepted request is answered with the counter, which moves on by the length parsed,
  whatever became of the answer. -/
  accepted : ∀ pre c r, pre ++ [c] <+: conns → (service init mem pre).exited = false →
    c.request? = some r →
      (service init mem (pre ++ [c])).granted = (service init mem pre).granted
        ++ [⟨(service init mem pre).seqNum, r, formatSeqNum (service init mem pre).seqNum⟩]
      ∧ (service init mem (pre ++ [c])).seqNum = (service init mem pre).seqNum + r
  /-- A rejected connection changes nothing. -/
  rejected : ∀ pre c, pre ++ [c] <+: conns → (service init mem pre).exited = false →
    c.request? = none →
      (service init mem (pre ++ [c])).granted = (service init mem pre).granted
      ∧ (service init mem (pre ++ [c])).seqNum = (service init mem pre).seqNum
  /-- The answers written are the recorded ones, each a line with the start it was given for. -/
  written : (service init mem conns).writes = (service init mem conns).granted.map Grant.seqNumStr
  start_text : ∀ g ∈ (service init mem conns).granted, ∃ z : ℤ,
    g.seqNumStr = intNumeral z ++ [newline] ∧ z ≡ g.seqNum.toNat [ZMOD 2 ^ 32]
  first_start : ∀ g ∈ (service init mem conns).granted.head?, g.seqNum = init
  next_start : ∀ (k : ℕ) (hk : k + 1 < (service init mem conns).granted.length),
    ((service init mem conns).granted[k + 1].seqNum.toNat : ℤ)
      = ((service init mem conns).granted[k].seqNum.toNat
          + (service init mem conns).granted[k].reqLen.toInt) % 2 ^ 32
  /-- At every loop head no client descriptor is open. -/
  no_open_fd : ∀ pre, pre <+: conns → (service init mem pre).fds = []
  /-- A number is granted twice only after the counter has wrapped. -/
  no_reuse : ∀ (i j : ℕ) (hij : i < j) (hj : j < (service init mem conns).granted.length),
    Window.Overlap (2 ^ 32) (service init mem conns).granted[i].window
      (service init mem conns).granted[j].window →
    2 ^ 32 < Window.through ((service init mem conns).granted.map Grant.window) i j

/-- **The sequence-number service over whole runs**, for every initial value and every sequence of
connections. -/
theorem service_run (init : BitVec 32) (mem : Mem) (conns : List Connection) :
    ServiceRun init mem conns := by
  have hinv := inv_service init mem conns
  have hchain : Window.Chained (2 ^ 32) ((service init mem conns).granted.map Grant.window) :=
    hinv.chained.of_counter
  refine ⟨?_, ?_, hinv.written, ?_, ?_, ?_, ?_, ?_⟩
  · intro pre c r _ hrun hr
    rw [service_concat]
    obtain ⟨hnone, -⟩ | ⟨r', hr', -, hseq, hgr, -⟩ := pass_cases _ c hrun
    · rw [hnone] at hr
      cases hr
    · obtain rfl : r' = r := Option.some.inj (hr'.symm.trans hr)
      exact ⟨hgr, hseq⟩
  · intro pre c _ hrun hr
    rw [service_concat]
    obtain ⟨-, hseq, hgr, -⟩ | ⟨r', hr', -⟩ := pass_cases _ c hrun
    · exact ⟨hgr, hseq⟩
    · rw [hr] at hr'
      cases hr'
  · intro g hg
    refine ⟨g.seqNum.toInt, ?_, toInt_modEq_toNat g.seqNum⟩
    rw [hinv.format g hg, formatSeqNum_eq]
  · intro g hg
    have hstart := hinv.first g.window (by
      rw [Server.windows, List.head?_append, List.head?_map]
      rw [Option.mem_def] at hg
      simp [hg])
    exact BitVec.eq_of_toNat_eq (by simpa [Grant.window] using hstart)
  · intro k hk
    have hstep := List.isChain_iff_getElem.mp hchain k (by simpa using hk)
    simp only [List.getElem_map, Grant.window] at hstep
    have hlt := (service init mem conns).granted[k + 1].seqNum.isLt
    rw [← hstep, Int.emod_eq_of_lt (by omega) (by omega)]
  · intro pre _
    exact (inv_service init mem pre).closed
  · intro i j hij hj ho
    have hpos : ∀ w ∈ (service init mem conns).granted.map Grant.window, 0 ≤ w.len := by
      intro w hw
      obtain ⟨g, hg, rfl⟩ := List.mem_map.mp hw
      exact hinv.nonneg g hg
    refine Window.lt_through_of_overlap (by norm_num) hchain hpos hij (by simpa using hj) ?_
    simpa using ho

end Tlpi.NetSeqnum
