import Tlpi.PipesAndFifo.SeqnumSystem

set_option autoImplicit false

/-! # Correspondence of requests and responses

Four facts hold in every reachable state of the protocol and give what the clients rely on: every
process has only the right FIFO open (`EndsInv`), every client has at most one request on its way or
dealt with (`LedgerInv`), every FIFO is empty or holds the one response to its client (`BytesInv`),
and a client has printed nothing or the response to its own request (`PrintedInv`).
-/

namespace Tlpi.FifoSeqnum

variable {args : BitVec 32 → Option (List UInt8)} {s t : Sys}

/-! ## The ends of the FIFOs -/

/-- Every process has only FIFOs open that were created under the name of its client. -/
structure EndsInv (s : Sys) : Prop where
  client : ∀ pid e, s.clientEnds pid = some e → s.fs.CreatedAs (clientFifoName pid) e.inode
  server : ∀ e, s.serverEnd = some e → ∃ req, s.server.pc.request? = some req
    ∧ s.fs.CreatedAs (clientFifoName req.pid) e.inode

theorem endsInv_init (h : Sys.Init args s) : EndsInv s where
  client := by
    intro pid e he
    rw [h.clientEnds] at he
    cases he
  server := by
    intro e he
    rw [h.serverEnd] at he
    cases he

theorem EndsInv.extend (h : EndsInv s) {fs : FifoFs} (hfs : s.fs.Extends fs) :
    EndsInv { s with fs := fs } where
  client pid e he := hfs _ _ (h.client pid e he)
  server e he := by
    obtain ⟨req, hreq, hcre⟩ := h.server e he
    exact ⟨req, hreq, hfs _ _ hcre⟩

theorem EndsInv.step (h : EndsInv s) (hstep : Sys.Step args s t) : EndsInv t := by
  cases hstep with
  | client pid c fs ends hc hfs hends =>
      refine ⟨?_, (h.extend hfs.created).server⟩
      intro p e he
      by_cases hp : p = pid
      · subst hp
        refine hfs.created _ _ ?_
        rcases hends e (by simpa using he) with hcre | hold
        · exact hcre
        · exact h.client p e hold
      · exact (h.extend hfs.created).client p e (by simpa [hp] using he)
  | send pid c hc hbefore hafter => exact ⟨h.client, h.server⟩
  | fetch srv hne hstep =>
      -- the server reads requests only while it has no client FIFO open
      refine ⟨h.client, ?_⟩
      intro e he
      obtain ⟨req, hreq, -⟩ := h.server e he
      have hpc : s.server.pc = .read := by cases hstep <;> assumption
      rw [hpc] at hreq
      cases hreq
  | answer srv e hend hstep =>
      have h' := h.extend (s.fs.put_extends e.inode (Response.bytes ⟨s.server.seqNum⟩))
      refine ⟨h'.client, ?_⟩
      intro e he
      obtain ⟨req, hreq, hcre⟩ := h'.server e he
      refine ⟨req, ?_, hcre⟩
      cases hstep with
      | respond req' fd count err hpc =>
          change s.server.pc.request? = some req at hreq
          rwa [hpc] at hreq
  | receive pid c e hend hc =>
      have h' := h.extend (s.fs.consume_extends e.inode sizeofResponse)
      exact ⟨h'.client, h'.server⟩
  | serverOpen req e hpc hend =>
      have h' := h.extend (s.fs.addWriter_keeps e.inode).created
      refine ⟨h'.client, ?_⟩
      rintro e' ⟨⟩
      exact ⟨req, by rw [hpc]; rfl, (s.fs.addWriter_keeps e.inode).created _ _ hend⟩
  | server r srv fs ends hstep hread hwrite hfs hends =>
      have h' := h.extend hfs.created
      refine ⟨h'.client, ?_⟩
      intro e he
      rcases hends with hnone | ⟨hsame, hreq⟩
      · cases he.symm.trans hnone
      · obtain ⟨req, hold, hcre⟩ := h'.server e (hsame ▸ he)
        exact ⟨req, hreq.trans hold, hcre⟩

/-! ## The requests on their way -/

/-- The request the server has read and not yet entered in its history. -/
def Pc.unanswered : Pc → List Request
  | .openClient req => [req]
  | .write req _ => [req]
  | _ => []

/-- All requests the server has read. -/
def Server.requests (s : Server) : List Request := s.handled.map Handled.req ++ s.pc.unanswered

/-- The requests read by the server and those still queued: at most one of each client, that
client's own, and sent. -/
structure Ledger (args : BitVec 32 → Option (List UInt8)) (s : Sys) (pending : List Request) :
    Prop where
  queue : s.queue = pending.flatMap Request.bytes
  nodup : ((s.server.requests ++ pending).map Request.pid).Nodup
  own : ∀ r ∈ s.server.requests ++ pending, r = request r.pid (args r.pid)
  sent : ∀ r ∈ s.server.requests ++ pending, (s.clients r.pid).pc.pastWrite = true

def LedgerInv (args : BitVec 32 → Option (List UInt8)) (s : Sys) : Prop :=
  ∃ pending, Ledger args s pending

theorem ledgerInv_init (h : Sys.Init args s) : LedgerInv args s := by
  have hreq : s.server.requests = [] := by rw [h.server]; rfl
  refine ⟨[], ?_, ?_, ?_, ?_⟩
  · rw [h.queue]
    rfl
  · simp [hreq]
  · simp [hreq]
  · simp [hreq]

/-- Steps of the server do not change which requests there are. -/
theorem Ledger.server {pending pending' : List Request}
    (h : Ledger args s pending) {t : Sys} (hclients : t.clients = s.clients)
    (hqueue : t.queue = pending'.flatMap Request.bytes)
    (hreq : t.server.requests ++ pending' = s.server.requests ++ pending) :
    Ledger args t pending' := by
  refine ⟨hqueue, ?_, ?_, ?_⟩
  · rw [hreq]
    exact h.nodup
  · rw [hreq]
    exact h.own
  · rw [hreq, hclients]
    exact h.sent

/-- Apart from reading a request, the server only moves it from one place to another. -/
theorem Server.Step.requests_eq {s t : Server} {r : Result} (h : Server.Step s r t)
    (hread : ∀ bs, r ≠ .read (some bs)) : t.requests = s.requests := by
  cases h with
  | discard chunk err hpc hbad => rfl
  | request bs hpc hlen => exact absurd rfl (hread bs)
  | skip req err hpc => simp [Server.requests, hpc, Pc.unanswered]
  | opened req fd hpc => simp [Server.requests, hpc, Pc.unanswered]
  | respond req fd count err hpc => simp [Server.requests, hpc, Pc.unanswered]
  | close req fd ok err hpc => simp [Server.requests, hpc, Pc.unanswered]

/-- A client that makes a quiet step has sent what it had sent before. -/
theorem Ledger.quiet {pending : List Request}
    (h : Ledger args s pending) {pid : BitVec 32} {c : Client}
    (hpast : (s.clients pid).pc.pastWrite = true → c.pc.pastWrite = true) :
    Ledger args (s.setClient pid c) pending := by
  refine ⟨h.queue, h.nodup, h.own, ?_⟩
  intro r hr
  have hold := h.sent r hr
  show (Function.update s.clients pid c r.pid).pc.pastWrite = true
  by_cases hp : r.pid = pid
  · rw [hp, Function.update_self]
    exact hpast (hp ▸ hold)
  · rwa [Function.update_of_ne hp]

theorem LedgerInv.step (h : LedgerInv args s) (hstep : Sys.Step args s t) : LedgerInv args t := by
  obtain ⟨pending, h⟩ := h
  cases hstep with
  | client pid c fs ends hc hfs hends =>
      have h' := h.quiet hc.pastWrite
      exact ⟨pending, h'.queue, h'.nodup, h'.own, h'.sent⟩
  | send pid c hc hbefore hafter =>
      -- the client's request is new: those that exist are of clients past their write
      have hnew : pid ∉ (s.server.requests ++ pending).map Request.pid := by
        intro hmem
        obtain ⟨r, hr, rfl⟩ := List.mem_map.mp hmem
        rw [h.sent r hr] at hbefore
        cases hbefore
      have h' := h.quiet hc.pastWrite
      refine ⟨pending ++ [request pid (args pid)], ?_, ?_, ?_, ?_⟩
      · show s.queue ++ _ = _
        rw [h.queue]
        simp
      · rw [← List.append_assoc, List.map_append]
        refine List.Nodup.append h.nodup (List.nodup_singleton _) ?_
        simpa [request] using hnew
      · intro r hr
        rw [← List.append_assoc] at hr
        rcases List.mem_append.mp hr with hr | hr
        · exact h.own r hr
        · obtain rfl := List.mem_singleton.mp hr
          rfl
      · intro r hr
        rw [← List.append_assoc] at hr
        rcases List.mem_append.mp hr with hr | hr
        · exact h'.sent r hr
        · obtain rfl := List.mem_singleton.mp hr
          show (Function.update s.clients pid c pid).pc.pastWrite = true
          rwa [Function.update_self]
  | fetch srv hne hstep =>
      cases pending with
      | nil => exact absurd h.queue hne
      | cons req rest =>
          -- the next eight bytes are the oldest queued request, as only whole requests are queued
          have htake : s.queue.take sizeofRequest = req.bytes := by
            rw [h.queue, List.flatMap_cons, List.take_left' (Request.bytes_length req)]
          have hdrop : s.queue.drop sizeofRequest = rest.flatMap Request.bytes := by
            rw [h.queue, List.flatMap_cons, List.drop_left' (Request.bytes_length req)]
          rw [htake] at hstep
          refine ⟨rest, h.server rfl hdrop ?_⟩
          cases hstep with
          | discard chunk err hpc hbad => exact absurd (Request.bytes_length req) (hbad _ rfl)
          | request bs hpc hlen =>
              simp [Server.requests, hpc, Pc.unanswered, Request.ofBytes_bytes]
  | answer srv e hend hstep =>
      refine ⟨pending, h.server rfl h.queue ?_⟩
      show srv.requests ++ pending = _
      rw [hstep.requests_eq fun _ h => nomatch h]
  | receive pid c e hend hc =>
      have hpast : (s.clients pid).pc.pastWrite = true → c.pc.pastWrite = true := by
        rcases hc with hc | hc
        · exact hc.pastWrite
        · intro _
          rw [hc.pc]
          rfl
      have h' := h.quiet hpast
      exact ⟨pending, h'.queue, h'.nodup, h'.own, h'.sent⟩
  | serverOpen req e hpc hend => exact ⟨pending, h.queue, h.nodup, h.own, h.sent⟩
  | server r srv fs ends hstep hread hwrite hfs hends =>
      refine ⟨pending, h.server rfl h.queue ?_⟩
      show srv.requests ++ pending = _
      rw [hstep.requests_eq hread]

/-! ## The responses on their way -/

/-- The server has written the response `res` to the FIFO of the client `pid`. -/
def Server.Answered (s : Server) (pid : BitVec 32) (res : Response) : Prop :=
  ∃ e ∈ s.handled, e.req.pid = pid ∧ e.outcome = .responded res true

theorem Server.Step.answered {s t : Server} {r : Result} (h : Server.Step s r t) {pid : BitVec 32}
    {res : Response} (ha : s.Answered pid res) : t.Answered pid res := by
  obtain ⟨e, he, hpid, hout⟩ := ha
  cases h with
  | discard chunk err hpc hbad => exact ⟨e, he, hpid, hout⟩
  | request bs hpc hlen => exact ⟨e, he, hpid, hout⟩
  | skip req err hpc => exact ⟨e, List.mem_append_left _ he, hpid, hout⟩
  | opened req fd hpc => exact ⟨e, he, hpid, hout⟩
  | respond req fd count err hpc => exact ⟨e, List.mem_append_left _ he, hpid, hout⟩
  | close req fd ok err hpc => exact ⟨e, he, hpid, hout⟩

/-- What is in a FIFO is one response, to the client the FIFO was created for. -/
def Carries (srv : Server) (f : Fifo) : Prop :=
  f.buf = [] ∨ ∃ pid res, srv.Answered pid res ∧ f.path = clientFifoName pid ∧ f.buf = res.bytes

def BytesInv (s : Sys) : Prop := ∀ i, Carries s.server (s.fs.fifos i)

theorem bytesInv_init (h : Sys.Init args s) : BytesInv s := by
  intro i
  obtain ⟨path, hpath⟩ := h.fifos i
  exact Or.inl (by rw [hpath]; rfl)

theorem BytesInv.keeps (h : BytesInv s) {fs : FifoFs} (hfs : s.fs.Keeps fs) (i : ℕ) :
    Carries s.server (fs.fifos i) := by
  rcases hfs.bytes i with hempty | ⟨hbuf, hpath⟩
  · exact Or.inl hempty
  · rw [Carries, hbuf, hpath]
    exact h i

theorem Carries.server {srv srv' : Server} {r : Result} {f : Fifo} (h : Carries srv f)
    (hstep : Server.Step srv r srv') : Carries srv' f := by
  rcases h with hempty | ⟨pid, res, ha, hpath, hbuf⟩
  · exact Or.inl hempty
  · exact Or.inr ⟨pid, res, hstep.answered ha, hpath, hbuf⟩

/-- The FIFO the server is about to write to is empty: a response in it would be to the same
client, and each client has one request. -/
theorem empty_before_answer (hends : EndsInv s)
    (hledger : LedgerInv args s) (h : BytesInv s) {e : FifoEnd} (hend : s.serverEnd = some e)
    {req : Request} {fd : ℕ} (hpc : s.server.pc = .write req fd) :
    (s.fs.fifos e.inode).buf = [] ∧ (s.fs.fifos e.inode).path = clientFifoName req.pid := by
  obtain ⟨req', hreq, hcre⟩ := hends.server e hend
  rw [hpc] at hreq
  obtain rfl : req = req' := Option.some.inj hreq
  refine ⟨?_, hcre.1⟩
  rcases h e.inode with hempty | ⟨pid, res, ⟨entry, hmem, hpid, -⟩, hpath, -⟩
  · exact hempty
  · obtain rfl : pid = req.pid := clientFifoName_injective (hpath.symm.trans hcre.1)
    obtain ⟨pending, hl⟩ := hledger
    have hnodup := hl.nodup
    simp only [Server.requests, hpc, Pc.unanswered, List.map_append, List.map_map,
      List.append_assoc] at hnodup
    have hold : req.pid ∈ s.server.handled.map (Request.pid ∘ Handled.req) :=
      List.mem_map.mpr ⟨entry, hmem, hpid⟩
    exact absurd (List.mem_append_left _ (List.mem_singleton_self _))
      (List.disjoint_of_nodup_append hnodup hold)

theorem BytesInv.step (hends : EndsInv s)
    (hledger : LedgerInv args s) (h : BytesInv s) (hstep : Sys.Step args s t) : BytesInv t := by
  cases hstep with
  | client pid c fs ends hc hfs hends => exact h.keeps hfs
  | send pid c hc hbefore hafter => exact h
  | fetch srv hne hstep => exact fun i => (h i).server hstep
  | answer srv e hend hstep =>
      intro i
      show Carries srv ((s.fs.put e.inode _).fifos i)
      by_cases hi : i = e.inode
      · subst hi
        rw [FifoFs.put_self]
        cases hstep with
        | respond req fd count err hpc =>
            obtain ⟨hempty, hpath⟩ := empty_before_answer hends hledger h hend hpc
            refine Or.inr ⟨req.pid, ⟨s.server.seqNum⟩, ?_, hpath, ?_⟩
            · exact ⟨_, List.mem_append_right _ (List.mem_singleton_self _), rfl, rfl⟩
            · simp [Fifo.put, hempty]
      · rw [FifoFs.put_of_ne _ _ hi]
        exact (h i).server hstep
  | receive pid c e hend hc =>
      intro i
      show Carries s.server ((s.fs.consume e.inode _).fifos i)
      by_cases hi : i = e.inode
      · subst hi
        rw [FifoFs.consume_self]
        left
        show (s.fs.fifos e.inode).buf.drop sizeofResponse = []
        rcases h e.inode with hempty | ⟨pid', res, -, -, hbuf⟩
        · rw [hempty]
          rfl
        · rw [hbuf, List.drop_eq_nil_iff, Response.bytes_length]
      · rw [FifoFs.consume_of_ne _ _ hi]
        exact h i
  | serverOpen req e hpc hend => exact h.keeps (s.fs.addWriter_keeps _)
  | server r srv fs ends hstep hread hwrite hfs hends =>
      exact fun i => (h.keeps hfs i).server hstep

/-! ## The printed numbers -/

/-- A client prints nothing, or the response to its own request; and it exits after printing. -/
structure Printed (srv : Server) (pid : BitVec 32) (c : Client) : Prop where
  silent : c.pc.running = true → c.stdout = []
  own : c.stdout = [] ∨ ∃ res, srv.Answered pid res ∧ c.stdout = printedLine res.seqNum

def PrintedInv (s : Sys) : Prop := ∀ pid, Printed s.server pid (s.clients pid)

theorem printedInv_init (h : Sys.Init args s) : PrintedInv s := by
  intro pid
  have hout : (s.clients pid).stdout = [] := by
    rw [h.clients, Client.start]
    split <;> rfl
  exact ⟨fun _ => hout, Or.inl hout⟩

theorem Printed.server {srv srv' : Server} {r : Result} {pid : BitVec 32} {c : Client}
    (h : Printed srv pid c) (hstep : Server.Step srv r srv') : Printed srv' pid c := by
  refine ⟨h.silent, h.own.imp id ?_⟩
  rintro ⟨res, ha, hout⟩
  exact ⟨res, hstep.answered ha, hout⟩

theorem Printed.quiet {srv : Server} {pid : BitVec 32} {c d : Client} (h : Printed srv pid c)
    (hc : Client.Quiet c d) : Printed srv pid d where
  silent hrun := hc.stdout.trans (h.silent (hc.running hrun))
  own := by
    rw [hc.stdout]
    exact h.own

/-- One client moves: only what it prints is new. -/
theorem PrintedInv.update (h : PrintedInv s) {pid : BitVec 32} {c : Client}
    (hc : Printed s.server pid c) (p : BitVec 32) :
    Printed s.server p (Function.update s.clients pid c p) := by
  by_cases hp : p = pid
  · subst hp
    rwa [Function.update_self]
  · rw [Function.update_of_ne hp]
    exact h p

theorem PrintedInv.step (hends : EndsInv s)
    (hbytes : BytesInv s) (h : PrintedInv s) (hstep : Sys.Step args s t) : PrintedInv t := by
  cases hstep with
  | client pid c fs ends hc hfs hends => exact h.update ((h pid).quiet hc)
  | send pid c hc hbefore hafter => exact h.update ((h pid).quiet hc)
  | fetch srv hne hstep => exact fun pid => (h pid).server hstep
  | answer srv e hend hstep => exact fun pid => (h pid).server hstep
  | receive pid c e hend hc =>
      refine h.update ?_
      rcases hc with hc | hc
      · exact (h pid).quiet hc
      · -- what it read is the whole content of its FIFO, hence its own response
        have hout := hc.stdout
        rw [(h pid).silent hc.running, List.nil_append] at hout
        have hexit : c.pc.running = false := by rw [hc.pc]; rfl
        refine ⟨fun hrun => absurd (hexit.symm.trans hrun) Bool.false_ne_true, Or.inr ?_⟩
        rcases hbytes e.inode with hempty | ⟨pid', res, ha, hpath, hbuf⟩
        · have hlen := hc.length
          rw [hempty] at hlen
          cases hlen
        · obtain rfl : pid' = pid :=
            clientFifoName_injective (hpath.symm.trans (hends.client pid e hend).1)
          rw [hbuf, List.take_of_length_le (Response.bytes_length res).le,
            Response.ofBytes_bytes] at hout
          exact ⟨res, ha, hout⟩
  | serverOpen req e hpc hend => exact h
  | server r srv fs ends hstep hread hwrite hfs hends => exact fun pid => (h pid).server hstep

/-! ## Correspondence -/

structure SysInv (args : BitVec 32 → Option (List UInt8)) (s : Sys) : Prop where
  server : ServerInv s.server
  ends : EndsInv s
  ledger : LedgerInv args s
  bytes : BytesInv s
  printed : PrintedInv s

theorem Sys.Step.server_step
    (h : Sys.Step args s t) : t.server = s.server ∨ ∃ r, Server.Step s.server r t.server := by
  cases h with
  | fetch srv hne hstep => exact Or.inr ⟨_, hstep⟩
  | answer srv e hend hstep => exact Or.inr ⟨_, hstep⟩
  | server r srv fs ends hstep hread hwrite hfs hends => exact Or.inr ⟨r, hstep⟩
  | _ => exact Or.inl rfl

theorem SysInv.step (h : SysInv args s) (hstep : Sys.Step args s t) : SysInv args t where
  server := by
    rcases hstep.server_step with heq | ⟨r, hsrv⟩
    · rw [heq]
      exact h.server
    · exact h.server.step hsrv
  ends := h.ends.step hstep
  ledger := h.ledger.step hstep
  bytes := h.bytes.step h.ends h.ledger hstep
  printed := h.printed.step h.ends h.bytes hstep

theorem sysInv_reachable (h : (system args).Reachable s) : SysInv args s := by
  refine h.invariant (fun s₀ h₀ => ?_) fun _ _ _ hs hstep => hs.step (Sys.step_of_next hstep)
  refine ⟨?_, endsInv_init h₀, ledgerInv_init h₀, bytesInv_init h₀, printedInv_init h₀⟩
  rw [h₀.server]
  exact serverInv_start

/-- What the clients get, in terms of the requests the server has dealt with. -/
structure Correspondence (args : BitVec 32 → Option (List UInt8)) (s : Sys) : Prop where
  /-- A printed number is the response to the client's own request, and it is the sum of the lengths
  counted before it. -/
  printed : ∀ pid, (s.clients pid).stdout = [] ∨ ∃ pre res post,
    s.server.handled = pre ++ ⟨request pid (args pid), .responded res true⟩ :: post
      ∧ (s.clients pid).stdout = printedLine res.seqNum
      ∧ (res.seqNum.toNat : ℤ) ≡ total pre [ZMOD 2 ^ 32]
  /-- Every request the server has dealt with is the one its client sent. -/
  own : ∀ e ∈ s.server.handled, e.req = request e.req.pid (args e.req.pid)
  /-- No client has two requests dealt with. -/
  once : (s.server.handled.map fun e => e.req.pid).Nodup
  /-- What a client can read from its FIFO is the response to its own request. -/
  inbox : ∀ pid e, s.clientEnds pid = some e → (s.fs.fifos e.inode).buf = [] ∨ ∃ res,
    ⟨request pid (args pid), .responded res true⟩ ∈ s.server.handled
      ∧ (s.fs.fifos e.inode).buf = res.bytes

theorem Ledger.own_handled {pending : List Request}
    (h : Ledger args s pending) {e : Handled} (he : e ∈ s.server.handled) :
    e.req = request e.req.pid (args e.req.pid) :=
  h.own e.req (List.mem_append_left _ (List.mem_append_left _ (List.mem_map_of_mem he)))

theorem Ledger.nodup_handled {pending : List Request} (h : Ledger args s pending) :
    (s.server.handled.map fun e => e.req.pid).Nodup := by
  have hnodup := h.nodup
  simp only [Server.requests, List.map_append, List.map_map] at hnodup
  exact (List.Nodup.of_append_left (List.Nodup.of_append_left hnodup))

/-- An answered client's request is in the history, with its response. -/
theorem SysInv.mem_of_answered
    (h : SysInv args s) {pid : BitVec 32} {res : Response} (ha : s.server.Answered pid res) :
    ⟨request pid (args pid), .responded res true⟩ ∈ s.server.handled := by
  obtain ⟨e, he, rfl, hout⟩ := ha
  obtain ⟨pending, hl⟩ := h.ledger
  rw [← hl.own_handled he, ← hout]
  exact he

theorem SysInv.correspondence (h : SysInv args s) : Correspondence args s := by
  obtain ⟨pending, hl⟩ := h.ledger
  refine ⟨?_, fun e he => hl.own_handled he, hl.nodup_handled, ?_⟩
  · intro pid
    rcases (h.printed pid).own with hempty | ⟨res, ha, hout⟩
    · exact Or.inl hempty
    · obtain ⟨pre, post, hsplit⟩ := List.append_of_mem (h.mem_of_answered ha)
      exact Or.inr ⟨pre, res, post, hsplit, hout, h.server.sums pre _ post res true hsplit rfl⟩
  · intro pid e hend
    rcases h.bytes e.inode with hempty | ⟨pid', res, ha, hpath, hbuf⟩
    · exact Or.inl hempty
    · obtain rfl : pid' = pid :=
        clientFifoName_injective (hpath.symm.trans (h.ends.client pid e hend).1)
      exact Or.inr ⟨res, h.mem_of_answered ha, hbuf⟩

/-- **Correspondence under any interleaving.** In every reachable state of the system, whatever the
clients' arguments: each printed number is the response to that client's own request and, modulo
`2 ^ 32`, the sum of the lengths of the requests served before it; no client has more than one
response, and none is in reach of another's. The names of the FIFOs are whole and distinct. -/
theorem protocol_correspondence (args : BitVec 32 → Option (List UInt8))
    (h : (system args).Reachable s) : Correspondence args s
      ∧ (∀ pid, clientFifoName pid = clientFifoText pid)
      ∧ Function.Injective clientFifoName :=
  ⟨(sysInv_reachable h).correspondence, clientFifoName_eq, clientFifoName_injective⟩

/-- No FIFO exists, and no process has started. -/
def Sys.start (args : BitVec 32 → Option (List UInt8)) : Sys where
  queue := []
  server := Server.start
  serverEnd := none
  fs := ⟨fun _ => none, fun _ => Fifo.fresh [], 0, fun _ _ h => nomatch h⟩
  clients pid := Client.start (args pid)
  clientEnds _ := none

theorem Sys.start_init (args : BitVec 32 → Option (List UInt8)) : Sys.Init args (Sys.start args) :=
  ⟨rfl, rfl, rfl, fun _ => ⟨[], rfl⟩, fun _ => rfl, fun _ => rfl⟩

/-- A client up to the end of its `write`. -/
def sendActs (pid : BitVec 32) : List Sys.Act :=
  [.client pid (.mkfifo none), .client pid (.atexit true), .client pid (.openServer true),
    .client pid (.write (some 8))]

/-- Three clients send; the open of the first one's FIFO fails, the write to the second one's fails
as its reader has been killed, and the third one, with its open already waiting, is served. -/
def threeClients : List Sys.Act :=
  sendActs 101 ++ sendActs 102 ++ sendActs 103
    ++ ([.server (.read (some [101, 0, 0, 0, 7, 0, 0, 0])), .server (.openClient none),
      .clientOpen 103, .clientOpen 102,
      .server (.read (some [102, 0, 0, 0, 5, 0, 0, 0])), .serverOpen,
      .server (.openClient (some 1)), .terminate 102, .server (.write none), .server (.close true),
      .server (.read (some [103, 0, 0, 0, 1, 0, 0, 0])), .serverOpen,
      .server (.openClient (some 2)), .client 103 (.openClient (some 2)),
      .server (.write (some 4)), .client 103 (.read (some [5, 0, 0, 0])), .client 103 .exit,
      .terminate 103, .server (.close true)] : List Sys.Act)

def threeArgs (pid : BitVec 32) : Option (List UInt8) :=
  if pid = 101 then some (str "7") else if pid = 102 then some (str "5") else none

theorem correspondence_threeClients : ∃ s, (system threeArgs).Reachable s
    ∧ (s.clients 103).stdout = str "5\n" ∧ Correspondence threeArgs s := by
  have hreach : (system threeArgs).Reachable
      (((system threeArgs).run (Sys.start threeArgs) threeClients).get (by decide)) :=
    ⟨Sys.start threeArgs, threeClients, Sys.start_init threeArgs, (Option.some_get _).symm⟩
  exact ⟨_, hreach, by decide, (protocol_correspondence threeArgs hreach).1⟩

end Tlpi.FifoSeqnum
