import Tlpi.PipesAndFifo.SeqnumServer

set_option autoImplicit false

/-! # The server's FIFO as a byte stream

The server of `SeqnumServer` with a FIFO that any process may write to. Every write is atomic, but
the FIFO keeps no boundaries between writes: a `read` returns the queued bytes, at most eight of
them. Requests of clients are mixed with writes of any other length.

A request is decoded as it was written exactly if the number of unread bytes at its write is a
multiple of eight (`Aligned`). The positions of the bytes in the whole stream are kept as a
history: a request is at the offset of its first byte.
-/

namespace Tlpi.FifoSeqnum

/-- The server and its FIFO. `taken` (bytes read so far), `sent` (offset and content of every
request) and `decoded` (offset of every read that gave a request, with that request) are a
history. -/
structure Pipe where
  queue : List UInt8
  server : Server
  taken : ℕ
  sent : List (ℕ × Request)
  decoded : List (ℕ × Request)
deriving DecidableEq, Repr

/-- An atomic write of a client, an atomic write of any other length by another process, or the
return of the server's current system call. -/
inductive Pipe.Act where
  | request (r : Request)
  | garbage (bs : List UInt8)
  | server (res : Result)
deriving DecidableEq, Repr

/-- The server after its `read` returned `bs`. -/
def Pipe.consume (p : Pipe) (bs : List UInt8) (s : Server) : Pipe where
  queue := p.queue.drop sizeofRequest
  server := s
  taken := p.taken + bs.length
  sent := p.sent
  decoded :=
    match s.pc with
    | .openClient r => p.decoded ++ [(p.taken, r)]
    | _ => p.decoded

def Pipe.next (p : Pipe) : Pipe.Act → Option Pipe
  | .request r =>
      some { p with
        queue := p.queue ++ r.bytes
        sent := p.sent ++ [(p.taken + p.queue.length, r)] }
  | .garbage bs =>
      if bs.length = sizeofRequest then none else some { p with queue := p.queue ++ bs }
  | .server (.read (some bs)) =>
      -- the server holds a write end itself, so on an empty FIFO the read blocks
      if p.queue = [] ∨ bs ≠ p.queue.take sizeofRequest then none
      else (p.server.next (.read (some bs))).map (p.consume bs)
  | .server res => (p.server.next res).map fun s => { p with server := s }

def Pipe.start : Pipe := ⟨[], Server.start, 0, [], []⟩

def pipe : TransSys Pipe Pipe.Act where
  Init p := p = Pipe.start
  step := Pipe.next

/-- Every request the server has begun to read was decoded as it was written, and no request was
decoded from bytes of one write and bytes of another's request. -/
structure Resync (p : Pipe) : Prop where
  exact_decoded : ∀ o r, (o, r) ∈ p.sent → o < p.taken → (o, r) ∈ p.decoded
  unmixed : ∀ o r o' r', (o, r) ∈ p.sent → (o', r') ∈ p.decoded →
    o' < o + sizeofRequest → o < o' + sizeofRequest → o' = o ∧ r' = r

/-- A request is written when the number of unread bytes is a multiple of its size. -/
def Aligned (p : Pipe) : Pipe.Act → Prop
  | .request _ => p.queue.length % sizeofRequest = 0
  | _ => True

/-! ## Steps -/

/-- What a step does to the FIFO: the two kinds of writes, a read of a whole request, a read of
fewer bytes, and everything else the server does. -/
inductive Pipe.Step (p : Pipe) : Pipe.Act → Pipe → Prop where
  | request (r : Request) : Step p (.request r)
      { p with
        queue := p.queue ++ r.bytes
        sent := p.sent ++ [(p.taken + p.queue.length, r)] }
  | garbage (bs : List UInt8) : Step p (.garbage bs) { p with queue := p.queue ++ bs }
  | accept (res : Result) (s : Server) (hlen : sizeofRequest ≤ p.queue.length) :
      Step p (.server res)
        { p with
          queue := p.queue.drop sizeofRequest
          server := s
          taken := p.taken + sizeofRequest
          decoded := p.decoded ++ [(p.taken, Request.ofBytes (p.queue.take sizeofRequest))] }
  | discard (res : Result) (s : Server) (hne : p.queue ≠ [])
      (hlen : p.queue.length < sizeofRequest) :
      Step p (.server res) { p with queue := [], server := s, taken := p.taken + p.queue.length }
  | internal (res : Result) (s : Server) : Step p (.server res) { p with server := s }

theorem Pipe.step_of_next {p q : Pipe} {a : Pipe.Act} (h : p.next a = some q) : Step p a q := by
  cases a with
  | request r =>
      obtain rfl := Option.some.inj h
      exact .request r
  | garbage bs =>
      simp only [Pipe.next] at h
      split at h
      · cases h
      · obtain rfl := Option.some.inj h
        exact .garbage bs
  | server res =>
      unfold Pipe.next at h
      split at h
      · rename_i heq; cases heq
      · rename_i heq; cases heq
      · rename_i bs heq
        obtain rfl := Pipe.Act.server.inj heq
        split at h
        · cases h
        · rename_i hread
          push Not at hread
          obtain ⟨hne, rfl⟩ := hread
          obtain ⟨s, hs, rfl⟩ := Option.map_eq_some_iff.mp h
          cases Server.step_of_next hs with
          | discard chunk err hpc hbad =>
              have hlen : p.queue.length < sizeofRequest := by
                have := hbad _ rfl
                rw [List.length_take] at this
                omega
              have hdrop : p.queue.drop sizeofRequest = [] := List.drop_of_length_le hlen.le
              have htake : p.queue.take sizeofRequest = p.queue := List.take_of_length_le hlen.le
              simpa [Pipe.consume, hpc, hdrop, htake] using
                Pipe.Step.discard (.read (some (p.queue.take sizeofRequest)))
                  { p.server with stderr := err } hne hlen
          | request bs hpc hlen =>
              have hle : sizeofRequest ≤ p.queue.length := by
                rw [List.length_take] at hlen
                omega
              simpa [Pipe.consume, hlen] using
                Pipe.Step.accept (.read (some (p.queue.take sizeofRequest)))
                  { p.server with
                    pc := .openClient (Request.ofBytes (p.queue.take sizeofRequest)) } hle
      · rename_i res' hnot heq
        obtain rfl := Pipe.Act.server.inj heq
        obtain ⟨s, -, rfl⟩ := Option.map_eq_some_iff.mp h
        exact .internal res s

/-! ## Reads do not overlap -/

/-- The reads that gave a request cover disjoint parts of what has been taken. -/
structure ReadInv (p : Pipe) : Prop where
  decoded_le : ∀ o r, (o, r) ∈ p.decoded → o + sizeofRequest ≤ p.taken
  apart : ∀ o r o' r', (o, r) ∈ p.decoded → (o', r') ∈ p.decoded →
    o' < o + sizeofRequest → o < o' + sizeofRequest → o' = o ∧ r' = r

theorem readInv_start : ReadInv Pipe.start where
  decoded_le := by simp [Pipe.start]
  apart := by simp [Pipe.start]

theorem ReadInv.step {p q : Pipe} {a : Pipe.Act} (h : ReadInv p) (hstep : Pipe.Step p a q) :
    ReadInv q := by
  cases hstep with
  | request r => exact ⟨h.decoded_le, h.apart⟩
  | garbage bs => exact ⟨h.decoded_le, h.apart⟩
  | internal res s => exact ⟨h.decoded_le, h.apart⟩
  | discard res s hne hlen =>
      refine ⟨fun o r hor => ?_, h.apart⟩
      exact (h.decoded_le o r hor).trans (Nat.le_add_right _ _)
  | accept res s hlen =>
      refine ⟨?_, ?_⟩
      · intro o r hor
        rcases List.mem_append.mp hor with hor | hor
        · exact (h.decoded_le o r hor).trans (Nat.le_add_right _ _)
        · obtain ⟨rfl, -⟩ := Prod.mk.inj (List.mem_singleton.mp hor)
          exact Nat.le_refl _
      · -- the new read starts where the earlier ones have ended
        intro o r o' r' hor hor' h1 h2
        rcases List.mem_append.mp hor with hor | hor
        · rcases List.mem_append.mp hor' with hor' | hor'
          · exact h.apart o r o' r' hor hor' h1 h2
          · obtain ⟨rfl, -⟩ := Prod.mk.inj (List.mem_singleton.mp hor')
            have := h.decoded_le o r hor
            omega
        · obtain ⟨rfl, rfl⟩ := Prod.mk.inj (List.mem_singleton.mp hor)
          rcases List.mem_append.mp hor' with hor' | hor'
          · have := h.decoded_le o' r' hor'
            omega
          · obtain ⟨rfl, rfl⟩ := Prod.mk.inj (List.mem_singleton.mp hor')
            exact ⟨rfl, rfl⟩

/-! ## Aligned runs -/

/-- The request `r` at offset `o` is queued, a multiple of its size ahead of the next read. -/
def Waiting (p : Pipe) (o : ℕ) (r : Request) : Prop :=
  ∃ k, o = p.taken + sizeofRequest * k
    ∧ (p.queue.drop (sizeofRequest * k)).take sizeofRequest = r.bytes

structure AlignedInv (p : Pipe) : Prop extends ReadInv p where
  sent : ∀ o r, (o, r) ∈ p.sent → (o, r) ∈ p.decoded ∨ Waiting p o r

theorem alignedInv_start : AlignedInv Pipe.start where
  toReadInv := readInv_start
  sent := by simp [Pipe.start]

theorem waiting_room {queue : List UInt8} {k : ℕ} {r : Request}
    (h : (queue.drop (sizeofRequest * k)).take sizeofRequest = r.bytes) :
    sizeofRequest * k + sizeofRequest ≤ queue.length := by
  have hlen := congrArg List.length h
  rw [List.length_take, List.length_drop, Request.bytes_length] at hlen
  have : 0 < sizeofRequest := by decide
  omega

/-- Later writes leave a queued request where it is. -/
theorem Waiting.append {p : Pipe} {o : ℕ} {r : Request} (h : Waiting p o r) (bs : List UInt8)
    (sent : List (ℕ × Request)) : Waiting { p with queue := p.queue ++ bs, sent := sent } o r := by
  obtain ⟨k, ho, hk⟩ := h
  have hroom := waiting_room hk
  refine ⟨k, ho, ?_⟩
  show ((p.queue ++ bs).drop (sizeofRequest * k)).take sizeofRequest = r.bytes
  rw [List.drop_append_of_le_length (by omega), List.take_append_of_le_length, hk]
  rw [List.length_drop]
  omega

theorem AlignedInv.step {p q : Pipe} {a : Pipe.Act} (h : AlignedInv p) (ha : Aligned p a)
    (hstep : Pipe.Step p a q) : AlignedInv q := by
  refine ⟨h.toReadInv.step hstep, ?_⟩
  cases hstep with
  | request r =>
      intro o r' hor
      rcases List.mem_append.mp hor with hor | hor
      · exact (h.sent o r' hor).imp id fun hw => hw.append _ _
      · obtain ⟨rfl, rfl⟩ := Prod.mk.inj (List.mem_singleton.mp hor)
        have hmul : sizeofRequest * (p.queue.length / sizeofRequest) = p.queue.length :=
          Nat.mul_div_cancel' (Nat.dvd_of_mod_eq_zero ha)
        refine Or.inr ⟨p.queue.length / sizeofRequest, by rw [hmul], ?_⟩
        show ((p.queue ++ r'.bytes).drop _).take _ = _
        rw [hmul, List.drop_left, ← Request.bytes_length r', List.take_length]
  | garbage bs =>
      intro o r hor
      exact (h.sent o r hor).imp id fun hw => hw.append bs p.sent
  | internal res s => exact h.sent
  | discard res s hne hlen =>
      intro o r hor
      refine (h.sent o r hor).imp id fun hw => ?_
      obtain ⟨k, -, hk⟩ := hw
      have := waiting_room hk
      omega
  | accept res s hlen =>
      intro o r hor
      rcases h.sent o r hor with hdec | ⟨k, ho, hk⟩
      · exact Or.inl (List.mem_append_left _ hdec)
      · cases k with
        | zero =>
            -- its turn: the read returns its eight bytes
            rw [Nat.mul_zero, List.drop_zero] at hk
            refine Or.inl (List.mem_append_right _ ?_)
            rw [hk, Request.ofBytes_bytes, ho, Nat.mul_zero, Nat.add_zero]
            exact List.mem_singleton_self _
        | succ k =>
            refine Or.inr ⟨k, ?_, ?_⟩
            · show o = p.taken + sizeofRequest + sizeofRequest * k
              rw [ho, Nat.mul_succ]
              omega
            · show ((p.queue.drop sizeofRequest).drop (sizeofRequest * k)).take _ = _
              rw [List.drop_drop, ← hk, Nat.mul_succ, Nat.add_comm]

theorem AlignedInv.resync {p : Pipe} (h : AlignedInv p) : Resync p where
  exact_decoded := by
    intro o r hor hlt
    rcases h.sent o r hor with hdec | ⟨k, ho, -⟩
    · exact hdec
    · omega
  unmixed := by
    intro o r o' r' hor hor' h1 h2
    rcases h.sent o r hor with hdec | ⟨k, ho, -⟩
    · exact h.apart o r o' r' hdec hor' h1 h2
    · have := h.decoded_le o' r' hor'
      omega

/-! ## A request out of step is lost -/

/-- Some request is queued out of step with the reads, or was read past without being decoded. -/
def Lost (p : Pipe) : Prop :=
  ∃ o r, (o, r) ∈ p.sent ∧
    ((p.taken < o ∧ (o - p.taken) % sizeofRequest ≠ 0 ∧ o < p.taken + p.queue.length)
      ∨ (o < p.taken ∧ ∀ r', (o, r') ∉ p.decoded))

theorem lost_of_not_aligned {p q : Pipe} {a : Pipe.Act} (ha : ¬ Aligned p a)
    (hstep : Pipe.Step p a q) : Lost q := by
  obtain ⟨r, rfl⟩ : ∃ r, a = .request r := by
    cases a with
    | request r => exact ⟨r, rfl⟩
    | garbage bs => exact absurd trivial ha
    | server res => exact absurd trivial ha
  have hmod : p.queue.length % sizeofRequest ≠ 0 := ha
  cases hstep
  have hpos : 0 < p.queue.length := by
    rcases Nat.eq_zero_or_pos p.queue.length with h0 | h0
    · rw [h0] at hmod
      exact absurd rfl hmod
    · exact h0
  refine ⟨p.taken + p.queue.length, r, List.mem_append_right _ (List.mem_singleton_self _),
    Or.inl ?_⟩
  refine ⟨?_, ?_, ?_⟩
  · show p.taken < p.taken + p.queue.length
    omega
  · show (p.taken + p.queue.length - p.taken) % sizeofRequest ≠ 0
    rwa [Nat.add_sub_cancel_left]
  · show p.taken + p.queue.length < p.taken + (p.queue ++ r.bytes).length
    rw [List.length_append, Request.bytes_length]
    have : 0 < sizeofRequest := by decide
    omega

theorem Lost.step {p q : Pipe} {a : Pipe.Act} (hinv : ReadInv p) (h : Lost p)
    (hstep : Pipe.Step p a q) : Lost q := by
  obtain ⟨o, r, hor, hlost⟩ := h
  cases hstep with
  | request r' =>
      refine ⟨o, r, List.mem_append_left _ hor, hlost.imp (fun h => ⟨h.1, h.2.1, ?_⟩) id⟩
      show o < p.taken + (p.queue ++ r'.bytes).length
      rw [List.length_append]
      omega
  | garbage bs =>
      refine ⟨o, r, hor, hlost.imp (fun h => ⟨h.1, h.2.1, ?_⟩) id⟩
      show o < p.taken + (p.queue ++ bs).length
      rw [List.length_append]
      omega
  | internal res s => exact ⟨o, r, hor, hlost⟩
  | discard res s hne hlen =>
      refine ⟨o, r, hor, Or.inr ?_⟩
      rcases hlost with ⟨h1, h2, h3⟩ | ⟨h1, h2⟩
      · refine ⟨h3, fun r' hr' => ?_⟩
        have := hinv.decoded_le o r' hr'
        omega
      · exact ⟨by show o < p.taken + _; omega, h2⟩
  | accept res s hlen =>
      refine ⟨o, r, hor, ?_⟩
      rcases hlost with ⟨h1, h2, h3⟩ | ⟨h1, h2⟩
      · by_cases hnear : o < p.taken + sizeofRequest
        · -- this read takes the first bytes of the request together with the ones before it
          refine Or.inr ⟨hnear, fun r' hr' => ?_⟩
          rcases List.mem_append.mp hr' with hr' | hr'
          · have := hinv.decoded_le o r' hr'
            omega
          · obtain ⟨rfl, -⟩ := Prod.mk.inj (List.mem_singleton.mp hr')
            omega
        · have hsplit : o - p.taken = (o - (p.taken + sizeofRequest)) + sizeofRequest := by omega
          have hmod : (o - (p.taken + sizeofRequest)) % sizeofRequest ≠ 0 := by
            rwa [hsplit, Nat.add_mod_right] at h2
          have hne : o ≠ p.taken + sizeofRequest := by
            rintro rfl
            rw [Nat.sub_self] at hmod
            exact hmod rfl
          refine Or.inl ⟨?_, hmod, ?_⟩
          · show p.taken + sizeofRequest < o
            omega
          · show o < p.taken + sizeofRequest + (p.queue.drop sizeofRequest).length
            rw [List.length_drop]
            omega
      · refine Or.inr ⟨by show o < p.taken + _; omega, fun r' hr' => ?_⟩
        rcases List.mem_append.mp hr' with hr' | hr'
        · exact h2 r' hr'
        · obtain ⟨rfl, -⟩ := Prod.mk.inj (List.mem_singleton.mp hr')
          omega

/-- **The server decodes every request as it was written in every run whose requests are aligned**;
and a run that leaves the FIFO empty has decoded them so only if they were. -/
theorem resync_iff_aligned {as : List Pipe.Act} {p : Pipe}
    (hrun : pipe.run Pipe.start as = some p) :
    (pipe.Meets Aligned Pipe.start as → Resync p)
    ∧ (p.queue = [] → (Resync p ↔ pipe.Meets Aligned Pipe.start as)) := by
  have hgood : pipe.Meets Aligned Pipe.start as → Resync p := fun hm =>
    (TransSys.run_preserves_of_meets (fun _ _ _ hs ha hstep => hs.step ha (Pipe.step_of_next hstep))
      alignedInv_start hm hrun).resync
  refine ⟨hgood, fun hempty => ⟨fun hres => ?_, hgood⟩⟩
  have hnot : ¬ Lost p := by
    rintro ⟨o, r, hor, ⟨h1, -, h3⟩ | ⟨h1, h2⟩⟩
    · rw [hempty, List.length_nil] at h3
      omega
    · exact h2 r (hres.exact_decoded o r hor h1)
  exact TransSys.meets_of_no_trace (I := ReadInv) (B := Lost)
    (fun _ _ _ hs hstep => hs.step (Pipe.step_of_next hstep))
    (fun _ _ _ hs hl hstep => hl.step hs (Pipe.step_of_next hstep))
    (fun _ _ _ _ hC hstep => lost_of_not_aligned hC (Pipe.step_of_next hstep))
    readInv_start hrun hnot

/-- A short write that is read before the next request arrives does no harm. -/
def shortThenRequest : List Pipe.Act :=
  [.garbage [1, 2, 3], .server (.read (some [1, 2, 3])), .request ⟨101, 5⟩,
    .server (.read (some [101, 0, 0, 0, 5, 0, 0, 0]))]

theorem resync_shortThenRequest : ∃ p, pipe.run Pipe.start shortThenRequest = some p
    ∧ p.sent = [(3, ⟨101, 5⟩)] ∧ Resync p := by
  have hrun : pipe.run Pipe.start shortThenRequest
      = some ((pipe.run Pipe.start shortThenRequest).get (by decide)) := (Option.some_get _).symm
  have hmeets : pipe.Meets Aligned Pipe.start shortThenRequest :=
    .cons trivial rfl (.cons trivial rfl (.cons rfl rfl (.cons trivial rfl trivial)))
  exact ⟨_, hrun, by decide, (resync_iff_aligned hrun).1 hmeets⟩

/-- Three bytes of another process and a request, read together: the server decodes a request that
nobody sent and discards the rest of the one that was. -/
def shortAndRequest : List Pipe.Act :=
  [.garbage [1, 2, 3], .request ⟨101, 5⟩, .server (.read (some [1, 2, 3, 101, 0, 0, 0, 5])),
    .server (.openClient none), .server (.read (some [0, 0, 0]))]

theorem no_resync_shortAndRequest : ∃ p, pipe.run Pipe.start shortAndRequest = some p
    ∧ p.queue = [] ∧ p.sent = [(3, ⟨101, 5⟩)] ∧ p.decoded = [(0, ⟨1694695937, 83886080⟩)]
    ∧ ¬ Resync p := by
  have hsent : ((pipe.run Pipe.start shortAndRequest).get (by decide)).sent = [(3, ⟨101, 5⟩)] := by
    decide
  refine ⟨_, (Option.some_get _).symm, by decide, hsent, by decide, fun hres => ?_⟩
  have hdec := hres.exact_decoded 3 ⟨101, 5⟩ (by rw [hsent]; decide) (by decide)
  revert hdec
  decide

end Tlpi.FifoSeqnum
