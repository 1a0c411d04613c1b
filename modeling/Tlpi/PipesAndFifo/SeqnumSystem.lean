import Tlpi.PipesAndFifo.SeqnumClient
import Tlpi.Posix.Fifo

set_option autoImplicit false

/-! # The FIFO sequence-number protocol

The server and any number of clients, one for each pid, with the FIFOs between them. The clients'
arguments are the parameter `args`. A run interleaves the steps of all processes in any order; a
system call may fail whenever its manual page lets it fail, and a process may be killed at any
time. Requests are shorter than `PIPE_BUF`, so each is written atomically.

The server's own FIFO is the byte queue `queue`: the server has both of its ends open. The clients'
FIFOs are in the file system `fs`, where FIFOs left behind by earlier processes may exist already.
-/

namespace Tlpi.FifoSeqnum

/-- An end of a FIFO that a process has opened or is opening: its number, and how many opens of the
other end there had been before. -/
structure FifoEnd where
  inode : ℕ
  seen : ℕ
deriving DecidableEq, Repr

structure Sys where
  queue : List UInt8
  server : Server
  serverEnd : Option FifoEnd
  fs : FifoFs
  clients : BitVec 32 → Client
  clientEnds : BitVec 32 → Option FifoEnd

/-- Which process moves: the call it is at returns, its open of a client FIFO arrives in the kernel
(and blocks), or, for a client, it is terminated. -/
inductive Sys.Act where
  | client (pid : BitVec 32) (r : ClientResult)
  | clientOpen (pid : BitVec 32)
  | terminate (pid : BitVec 32)
  | server (r : Result)
  | serverOpen
deriving DecidableEq, Repr

def Sys.closeClientEnd (s : Sys) (pid : BitVec 32) : Sys :=
  match s.clientEnds pid with
  | none => s
  | some e =>
      { s with
        fs := s.fs.dropReader e.inode
        clientEnds := Function.update s.clientEnds pid none }

def Sys.closeServerEnd (s : Sys) : Sys :=
  match s.serverEnd with
  | none => s
  | some e => { s with fs := s.fs.dropWriter e.inode, serverEnd := none }

/-- What the kernel does when the call of a client returns `r`; `none` if it cannot return that. -/
def Sys.clientCall (args : BitVec 32 → Option (List UInt8)) (s : Sys) (pid : BitVec 32) :
    ClientResult → Option Sys
  | .mkfifo none =>
      if s.fs.names (clientFifoName pid) = none then
        some { s with fs := s.fs.mkfifo (clientFifoName pid) }
      else none
  -- a FIFO of that name left behind by an earlier process is used as it is
  | .mkfifo (some .EEXIST) => if s.fs.names (clientFifoName pid) = none then none else some s
  | .mkfifo (some _) => some s
  | .atexit _ => some s
  | .openServer _ => some s
  | .write none => some s
  | .write (some count) =>
      if count = sizeofRequest then
        some { s with queue := s.queue ++ (request pid (args pid)).bytes }
      else none
  -- a blocked open that is interrupted gives up its end
  | .openClient none => some (s.closeClientEnd pid)
  | .openClient (some fd) =>
      match s.clientEnds pid with
      | none => none
      | some e =>
          if fd = e.inode ∧ (s.fs.fifos e.inode).writerCame e.seen = true then some s else none
  | .read none => some s
  | .read (some bs) =>
      match s.clientEnds pid with
      | none => none
      | some e =>
          let fifo := s.fs.fifos e.inode
          -- an empty FIFO: end of file without a writer, else the read blocks
          if fifo.buf = [] then if bs = [] ∧ fifo.writers = 0 then some s else none
          else if bs = fifo.buf.take sizeofResponse then
            some { s with fs := s.fs.consume e.inode sizeofResponse }
          else none
  -- `removeFifo`
  | .exit =>
      if (s.clients pid).removeAtExit then
        some { s with fs := s.fs.unlink (clientFifoName pid) }
      else some s

/-- What the kernel does when the call of the server returns `r`. -/
def Sys.serverCall (s : Sys) : Result → Option Sys
  | .read none => some s
  | .read (some bs) =>
      if s.queue ≠ [] ∧ bs = s.queue.take sizeofRequest then
        some { s with queue := s.queue.drop sizeofRequest }
      else none
  | .openClient none => some s.closeServerEnd
  | .openClient (some fd) =>
      match s.serverEnd with
      | none => none
      | some e =>
          if fd = e.inode ∧ (s.fs.fifos e.inode).readerCame e.seen = true then some s else none
  -- SIGPIPE is ignored, so without a reader `write` fails with EPIPE
  | .write none => some s
  | .write (some count) =>
      match s.serverEnd with
      | none => none
      | some e =>
          if count = sizeofResponse ∧ 0 < (s.fs.fifos e.inode).readers then
            some { s with fs := s.fs.put e.inode (Response.bytes ⟨s.server.seqNum⟩) }
          else none
  | .close _ => some s.closeServerEnd

def Sys.setClient (s : Sys) (pid : BitVec 32) (c : Client) : Sys :=
  { s with clients := Function.update s.clients pid c }

def Sys.next (args : BitVec 32 → Option (List UInt8)) (s : Sys) : Sys.Act → Option Sys
  | .client pid r =>
      ((s.clients pid).next pid r).bind fun c => (s.clientCall args pid r).map (·.setClient pid c)
  | .clientOpen pid =>
      if (s.clients pid).pc = .openClient ∧ s.clientEnds pid = none then
        (s.fs.names (clientFifoName pid)).map fun i =>
          { s with
            fs := s.fs.addReader i
            clientEnds := Function.update s.clientEnds pid
              (some ⟨i, (s.fs.fifos i).writerOpens⟩) }
      else none
  -- at any time, also by a signal; `removeFifo` does not run then
  | .terminate pid =>
      some ((s.closeClientEnd pid).setClient pid { s.clients pid with pc := .terminated })
  | .server r => (s.server.next r).bind fun srv => (s.serverCall r).map ({ · with server := srv })
  | .serverOpen =>
      match s.server.pc, s.serverEnd with
      | .openClient req, none =>
          (s.fs.names (clientFifoName req.pid)).map fun i =>
            { s with
              fs := s.fs.addWriter i
              serverEnd := some ⟨i, (s.fs.fifos i).readerOpens⟩ }
      | _, _ => none

/-- Before the first step no request is queued, no client has started, and the FIFOs that exist
already are empty and closed. -/
structure Sys.Init (args : BitVec 32 → Option (List UInt8)) (s : Sys) : Prop where
  queue : s.queue = []
  server : s.server = Server.start
  serverEnd : s.serverEnd = none
  fifos : ∀ i, ∃ path, s.fs.fifos i = Fifo.fresh path
  clients : ∀ pid, s.clients pid = Client.start (args pid)
  clientEnds : ∀ pid, s.clientEnds pid = none

def system (args : BitVec 32 → Option (List UInt8)) : TransSys Sys Sys.Act where
  Init := Sys.Init args
  step := Sys.next args

/-! ## What a step can do -/

/-- The request whose client FIFO the server opens, has open or closes. -/
def Pc.request? : Pc → Option Request
  | .read => none
  | .openClient req => some req
  | .write req _ => some req
  | .close req _ => some req

/-- The read of a whole response by a client. -/
structure Client.Prints (c d : Client) (bs : List UInt8) : Prop where
  length : bs.length = sizeofResponse
  running : c.pc.running = true
  pc : d.pc = .exit 0
  stdout : d.stdout = c.stdout ++ printedLine (Response.ofBytes bs).seqNum

/-- The steps of the system. Bytes move in four of them: `send` and `fetch` at the server's FIFO,
`answer` and `receive` at a client's. -/
inductive Sys.Step (args : BitVec 32 → Option (List UInt8)) (s : Sys) : Sys → Prop where
  | client (pid : BitVec 32) (c : Client) (fs : FifoFs) (ends : Option FifoEnd)
      (hc : Client.Quiet (s.clients pid) c) (hfs : s.fs.Keeps fs)
      (hends : ∀ e, ends = some e →
        s.fs.CreatedAs (clientFifoName pid) e.inode ∨ s.clientEnds pid = some e) :
      Step args s
        { s with
          fs := fs
          clients := Function.update s.clients pid c
          clientEnds := Function.update s.clientEnds pid ends }
  | send (pid : BitVec 32) (c : Client) (hc : Client.Quiet (s.clients pid) c)
      (hbefore : (s.clients pid).pc.pastWrite = false) (hafter : c.pc.pastWrite = true) :
      Step args s
        { s with
          queue := s.queue ++ (request pid (args pid)).bytes
          clients := Function.update s.clients pid c }
  | fetch (srv : Server) (hne : s.queue ≠ [])
      (hstep : Server.Step s.server (.read (some (s.queue.take sizeofRequest))) srv) :
      Step args s { s with queue := s.queue.drop sizeofRequest, server := srv }
  | answer (srv : Server) (e : FifoEnd) (hend : s.serverEnd = some e)
      (hstep : Server.Step s.server (.write (some sizeofResponse)) srv) :
      Step args s
        { s with fs := s.fs.put e.inode (Response.bytes ⟨s.server.seqNum⟩), server := srv }
  | receive (pid : BitVec 32) (c : Client) (e : FifoEnd) (hend : s.clientEnds pid = some e)
      (hc : Client.Quiet (s.clients pid) c
        ∨ Client.Prints (s.clients pid) c ((s.fs.fifos e.inode).buf.take sizeofResponse)) :
      Step args s
        { s with
          fs := s.fs.consume e.inode sizeofResponse
          clients := Function.update s.clients pid c }
  | serverOpen (req : Request) (e : FifoEnd) (hpc : s.server.pc = .openClient req)
      (hend : s.fs.CreatedAs (clientFifoName req.pid) e.inode) :
      Step args s { s with fs := s.fs.addWriter e.inode, serverEnd := some e }
  | server (r : Result) (srv : Server) (fs : FifoFs) (ends : Option FifoEnd)
      (hstep : Server.Step s.server r srv) (hread : ∀ bs, r ≠ .read (some bs))
      (hwrite : r ≠ .write (some sizeofResponse)) (hfs : s.fs.Keeps fs)
      (hends : ends = none
        ∨ ends = s.serverEnd ∧ srv.pc.request? = s.server.pc.request?) :
      Step args s { s with fs := fs, server := srv, serverEnd := ends }

variable {args : BitVec 32 → Option (List UInt8)} {s t : Sys}

/-- A client's step that leaves its end alone. -/
theorem Sys.Step.clientFs {pid : BitVec 32} {c : Client} {fs : FifoFs}
    (hc : Client.Quiet (s.clients pid) c) (hfs : s.fs.Keeps fs) :
    Step args s { s with fs := fs, clients := Function.update s.clients pid c } := by
  have hstep := @Step.client args s pid c fs (s.clientEnds pid) hc hfs fun _ => Or.inr
  rwa [Function.update_eq_self] at hstep

theorem Sys.Step.clientOnly {pid : BitVec 32} {c : Client} (hc : Client.Quiet (s.clients pid) c) :
    Step args s (s.setClient pid c) := clientFs hc (.refl _)

theorem Sys.Step.clientClose {pid : BitVec 32} {c : Client} (hc : Client.Quiet (s.clients pid) c) :
    Step args s ((s.closeClientEnd pid).setClient pid c) := by
  unfold Sys.closeClientEnd
  split
  · exact clientOnly hc
  · rename_i e _
    exact .client pid c (s.fs.dropReader e.inode) none hc (s.fs.dropReader_keeps _)
      fun _ he => nomatch he

theorem Sys.step_of_clientCall {pid : BitVec 32} {r : ClientResult} {c : Client}
    (hnext : (s.clients pid).next pid r = some c) (hcall : s.clientCall args pid r = some t) :
    Step args s (t.setClient pid c) := by
  cases r with
  | mkfifo error =>
      have hc := Client.quiet_of_next hnext fun _ h => nomatch h
      cases error with
      | none =>
          simp only [Sys.clientCall] at hcall
          split at hcall
          · obtain rfl := Option.some.inj hcall
            exact .clientFs hc (s.fs.mkfifo_keeps _)
          · cases hcall
      | some err =>
          cases err with
          | EEXIST =>
              simp only [Sys.clientCall] at hcall
              split at hcall
              · cases hcall
              · obtain rfl := Option.some.inj hcall
                exact .clientOnly hc
          | _ =>
              obtain rfl := Option.some.inj hcall
              exact .clientOnly hc
  | atexit ok =>
      obtain rfl := Option.some.inj hcall
      exact .clientOnly (Client.quiet_of_next hnext fun _ h => nomatch h)
  | openServer ok =>
      obtain rfl := Option.some.inj hcall
      exact .clientOnly (Client.quiet_of_next hnext fun _ h => nomatch h)
  | write count =>
      have hc := Client.quiet_of_next hnext fun _ h => nomatch h
      cases count with
      | none =>
          obtain rfl := Option.some.inj hcall
          exact .clientOnly hc
      | some count =>
          simp only [Sys.clientCall] at hcall
          split at hcall
          · obtain rfl := Option.some.inj hcall
            obtain ⟨hbefore, hafter⟩ := Client.sent_of_next hnext
            exact .send pid c hc hbefore hafter
          · cases hcall
  | openClient clientFd =>
      have hc := Client.quiet_of_next hnext fun _ h => nomatch h
      cases clientFd with
      | none =>
          obtain rfl := Option.some.inj hcall
          exact .clientClose hc
      | some fd =>
          simp only [Sys.clientCall] at hcall
          split at hcall
          · cases hcall
          · split at hcall
            · obtain rfl := Option.some.inj hcall
              exact .clientOnly hc
            · cases hcall
  | read chunk =>
      cases chunk with
      | none =>
          obtain rfl := Option.some.inj hcall
          exact .clientOnly (Client.quiet_of_next hnext fun _ h => nomatch h)
      | some bs =>
          simp only [Sys.clientCall] at hcall
          split at hcall
          · cases hcall
          · rename_i e hend
            split at hcall
            · -- end of file
              split at hcall
              · rename_i hbs
                obtain rfl := Option.some.inj hcall
                refine .clientOnly (Client.quiet_of_next hnext ?_)
                rintro bs' ⟨⟩ hlen
                rw [hbs.1] at hlen
                cases hlen
              · cases hcall
            · split at hcall
              · rename_i hbs
                obtain rfl := Option.some.inj hcall
                subst hbs
                refine .receive pid c e hend ?_
                by_cases hlen : ((s.fs.fifos e.inode).buf.take sizeofResponse).length
                    = sizeofResponse
                · obtain ⟨hrun, hpc, hout⟩ := Client.printed_of_next hnext hlen
                  exact Or.inr ⟨hlen, hrun, hpc, hout⟩
                · refine Or.inl (Client.quiet_of_next hnext ?_)
                  rintro bs' ⟨⟩
                  exact hlen
              · cases hcall
  | exit =>
      have hc := Client.quiet_of_next hnext fun _ h => nomatch h
      simp only [Sys.clientCall] at hcall
      split at hcall
      · obtain rfl := Option.some.inj hcall
        exact .clientFs hc (s.fs.unlink_keeps _)
      · obtain rfl := Option.some.inj hcall
        exact .clientOnly hc

theorem Sys.Step.serverOnly {r : Result} {srv : Server} (hstep : Server.Step s.server r srv)
    (hread : ∀ bs, r ≠ .read (some bs)) (hwrite : r ≠ .write (some sizeofResponse))
    (hreq : srv.pc.request? = s.server.pc.request?) : Step args s { s with server := srv } :=
  .server r srv s.fs s.serverEnd hstep hread hwrite (.refl _) (Or.inr ⟨rfl, hreq⟩)

theorem Sys.Step.serverClose {r : Result} {srv : Server} (hstep : Server.Step s.server r srv)
    (hread : ∀ bs, r ≠ .read (some bs)) (hwrite : r ≠ .write (some sizeofResponse)) :
    Step args s { s.closeServerEnd with server := srv } := by
  unfold Sys.closeServerEnd
  split
  · rename_i hend
    have hstep := @Step.server args s r srv s.fs none hstep hread hwrite (.refl _) (Or.inl rfl)
    rwa [← hend] at hstep
  · rename_i e _
    exact .server r srv (s.fs.dropWriter e.inode) none hstep hread hwrite (s.fs.dropWriter_keeps _)
      (Or.inl rfl)

theorem Sys.step_of_serverCall {r : Result} {srv : Server} (hnext : s.server.next r = some srv)
    (hcall : s.serverCall r = some t) : Step args s { t with server := srv } := by
  have hstep := Server.step_of_next hnext
  cases r with
  | read chunk =>
      cases chunk with
      | none =>
          obtain rfl := Option.some.inj hcall
          refine .serverOnly hstep (fun bs h => nomatch h) (fun h => nomatch h) ?_
          cases hstep
          rfl
      | some bs =>
          simp only [Sys.serverCall] at hcall
          split at hcall
          · rename_i hbs
            obtain ⟨hne, rfl⟩ := hbs
            obtain rfl := Option.some.inj hcall
            exact .fetch srv hne hstep
          · cases hcall
  | openClient fd =>
      cases fd with
      | none =>
          obtain rfl := Option.some.inj hcall
          exact .serverClose hstep (fun bs h => nomatch h) fun h => nomatch h
      | some fd =>
          simp only [Sys.serverCall] at hcall
          split at hcall
          · cases hcall
          · split at hcall
            · obtain rfl := Option.some.inj hcall
              refine .serverOnly hstep (fun bs h => nomatch h) (fun h => nomatch h) ?_
              cases hstep with
              | opened req fd hpc => rw [hpc]; rfl
            · cases hcall
  | write count =>
      cases count with
      | none =>
          obtain rfl := Option.some.inj hcall
          refine .serverOnly hstep (fun bs h => nomatch h) (fun h => nomatch h) ?_
          cases hstep with
          | respond req fd count err hpc => rw [hpc]; rfl
      | some count =>
          simp only [Sys.serverCall] at hcall
          split at hcall
          · cases hcall
          · rename_i e hend
            split at hcall
            · rename_i hcount
              obtain ⟨rfl, -⟩ := hcount
              obtain rfl := Option.some.inj hcall
              exact .answer srv e hend hstep
            · cases hcall
  | close ok =>
      obtain rfl := Option.some.inj hcall
      exact .serverClose hstep (fun bs h => nomatch h) fun h => nomatch h

theorem Sys.step_of_next {a : Sys.Act} (h : s.next args a = some t) : Step args s t := by
  cases a with
  | client pid r =>
      obtain ⟨c, hnext, hmap⟩ := Option.bind_eq_some_iff.mp h
      obtain ⟨u, hcall, rfl⟩ := Option.map_eq_some_iff.mp hmap
      exact Sys.step_of_clientCall hnext hcall
  | clientOpen pid =>
      simp only [Sys.next] at h
      split at h
      · obtain ⟨i, hi, rfl⟩ := Option.map_eq_some_iff.mp h
        have hstep := @Step.client args s pid (s.clients pid) (s.fs.addReader i)
          (some ⟨i, (s.fs.fifos i).writerOpens⟩) (.refl _) (s.fs.addReader_keeps i) (by
            rintro e ⟨⟩
            exact Or.inl (FifoFs.createdAs_of_names hi))
        rwa [Function.update_eq_self] at hstep
      · cases h
  | terminate pid =>
      obtain rfl := Option.some.inj h
      exact .clientClose ⟨rfl, fun _ => rfl, fun hrun => nomatch hrun⟩
  | server r =>
      obtain ⟨srv, hnext, hmap⟩ := Option.bind_eq_some_iff.mp h
      obtain ⟨u, hcall, rfl⟩ := Option.map_eq_some_iff.mp hmap
      exact Sys.step_of_serverCall hnext hcall
  | serverOpen =>
      simp only [Sys.next] at h
      split at h
      · rename_i req hpc hend
        obtain ⟨i, hi, rfl⟩ := Option.map_eq_some_iff.mp h
        exact .serverOpen req ⟨i, _⟩ hpc (FifoFs.createdAs_of_names hi)
      · cases h

end Tlpi.FifoSeqnum
