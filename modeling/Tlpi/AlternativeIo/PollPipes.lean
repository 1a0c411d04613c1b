import Tlpi.Lib.Decimal
import Tlpi.Posix.Fds
import Tlpi.Posix.Strtol

set_option autoImplicit false

/-! # Polling pipes (alternative_io/poll_pipes.c)

The program makes a number of pipes, writes a byte to one of them after another, as `random` says,
and asks `poll` which of them can be read. Nobody else has the pipes: a write to a pipe that is full
never returns. Without a standard output at the start one of the pipes would take its place, and get
what the program prints; what the standard output does with it is left out.
-/

namespace Tlpi.PollPipes

open Decimal

/-- What the program finds: the open descriptors, the number of bytes that each pipe can hold (those
of a user with many pipes hold less), what the calls of `random` return, and which calls succeed
(`calloc` stands for both of them). -/
structure Env where
  fds : Finset ℕ
  capacity : ℕ → ℕ
  random : ℕ → ℕ
  calloc : Bool
  pipe : ℕ → Bool
  write : ℕ → Bool
  poll : Bool

inductive Line where
  | writing (writeFd readFd : ℕ)
  | returned (ready : ℕ)
  | readable (fd : ℕ)
deriving DecidableEq, Repr

/-- How the program ends; for an exit, also what it has written to the standard error. The text
behind a `perror` is the one of the call; that of `errno` is left out. -/
inductive Ending where
  | exited (status : ℕ) (stderr : List UInt8)
  | blocked
  | sigfpe
deriving DecidableEq, Repr

structure Result where
  ending : Ending
  stdout : List Line
deriving DecidableEq, Repr

variable (E : Env)

/-- The loop around `pipe`, from the `j`-th of `n` pipes on: the read end and the write end of each.
Both get the lowest number that is not in use. -/
def makePipes (fds : Finset ℕ) (j : ℕ) : ℕ → Except Ending (List (ℕ × ℕ))
  | 0 => .ok []
  | n + 1 =>
      if E.pipe j then
        let readFd := lowestFd fds
        let writeFd := lowestFd (insert readFd fds)
        (makePipes (insert writeFd (insert readFd fds)) (j + 1) n).map ((readFd, writeFd) :: ·)
      else .error (.exited EXIT_FAILURE (str "pipe " ++ numeral j))

/-- `pfds[i]`. -/
def pair (pfds : List (ℕ × ℕ)) (i : ℕ) : ℕ × ℕ := (pfds[i]?).getD (0, 0)

/-- The pipe of the `j`-th write. -/
def randPipe (numPipes j : ℕ) : ℕ := E.random j % numPipes

def writingLine (pfds : List (ℕ × ℕ)) (j : ℕ) : Line :=
  .writing (pair pfds (randPipe E pfds.length j)).2 (pair pfds (randPipe E pfds.length j)).1

/-- The loop around `write`, from the `j`-th write on; `bytes` are the numbers of bytes in the
pipes. With no pipe there is a division by 0. -/
def writeLoop (pfds : List (ℕ × ℕ)) (j : ℕ) (bytes : ℕ → ℕ) :
    ℕ → List Line × Except Ending (ℕ → ℕ)
  | 0 => ([], .ok bytes)
  | k + 1 =>
      if pfds.length = 0 then ([], .error .sigfpe)
      else if E.write j = false then
        ([writingLine E pfds j], .error (.exited EXIT_FAILURE
          (str "write " ++ numeral (pair pfds (randPipe E pfds.length j)).2)))
      else if bytes (randPipe E pfds.length j) < E.capacity (randPipe E pfds.length j) then
        let rest := writeLoop pfds (j + 1)
          (Function.update bytes (randPipe E pfds.length j)
            (bytes (randPipe E pfds.length j) + 1)) k
        (writingLine E pfds j :: rest.1, rest.2)
      else ([writingLine E pfds j], .error .blocked)

/-- The pipes that `poll` reports: those with a byte in them. -/
def readyPipes (numPipes : ℕ) (bytes : ℕ → ℕ) : List ℕ :=
  (List.range numPipes).filter fun i => decide (0 < bytes i)

def numPipes (argv : List (List UInt8)) : ℤ := (atoi ((argv[1]?).getD [])).toInt

def numWrites (argv : List (List UInt8)) : ℤ :=
  if 2 < argv.length then (atoi ((argv[2]?).getD [])).toInt else 1

def usage (argv : List (List UInt8)) : Bool :=
  decide (argv.length < 2 ∨ argv[1]? = some (str "--help"))

/-- The program, with a standard output that none of the pipes is. -/
def pollPipes (argv : List (List UInt8)) : Result :=
  if usage argv then
    ⟨.exited EXIT_FAILURE ((argv[0]?).getD (str "(null)") ++ str " num-pipes [num-writes]\n"), []⟩
  -- a negative number of pipes is a very large one for `calloc`
  else if numPipes argv < 0 ∨ E.calloc = false then ⟨.exited EXIT_FAILURE (str "calloc"), []⟩
  else
    match makePipes E E.fds 0 (numPipes argv).toNat with
    | .error ending => ⟨ending, []⟩
    | .ok pfds =>
        match writeLoop E pfds 0 (fun _ => 0) (numWrites argv).toNat with
        | (lines, .error ending) => ⟨ending, lines⟩
        | (lines, .ok bytes) =>
            if E.poll = false then ⟨.exited EXIT_FAILURE (str "poll"), lines⟩
            else
              ⟨.exited EXIT_SUCCESS [], lines ++ .returned (readyPipes pfds.length bytes).length ::
                (readyPipes pfds.length bytes).map fun i => .readable (pair pfds i).1⟩

/-- The program does not succeed, and an exit says on the standard error why. -/
def Ending.Failed : Ending → Prop
  | .exited status stderr => status = EXIT_FAILURE ∧ stderr ≠ []
  | .blocked => True
  | .sigfpe => True

theorem Ending.Failed.ne {ending : Ending} (h : ending.Failed) :
    ending ≠ .exited EXIT_SUCCESS [] := by
  rintro rfl
  exact h.2 rfl

/-! ## The pipes -/

variable {E}

/-- All descriptors of the pipes. -/
def descriptors (pfds : List (ℕ × ℕ)) : List ℕ := pfds.flatMap fun pfd => [pfd.1, pfd.2]

theorem exceptMap_eq_ok {ε α β : Type} {f : α → β} {x : Except ε α} {b : β}
    (h : x.map f = .ok b) : ∃ a, x = .ok a ∧ b = f a := by
  cases x with
  | error e => cases h
  | ok a => exact ⟨a, rfl, (Except.ok.inj h).symm⟩

theorem exceptMap_eq_error {ε α β : Type} {f : α → β} {x : Except ε α} {e : ε}
    (h : x.map f = .error e) : x = .error e := by
  cases x with
  | error e' => exact congrArg Except.error (Except.error.inj h)
  | ok a => cases h

theorem makePipes_spec {fds : Finset ℕ} {j n : ℕ} {pfds : List (ℕ × ℕ)}
    (h : makePipes E fds j n = .ok pfds) :
    pfds.length = n ∧ (descriptors pfds).Nodup ∧ ∀ fd ∈ descriptors pfds, fd ∉ fds := by
  induction n generalizing fds j pfds with
  | zero =>
      obtain rfl := Except.ok.inj h
      exact ⟨rfl, List.nodup_nil, nofun⟩
  | succ n ih =>
      rw [makePipes] at h
      split at h
      · obtain ⟨rest, hrest, rfl⟩ := exceptMap_eq_ok h
        obtain ⟨hlength, hnodup, hnew⟩ := ih hrest
        have hread : lowestFd fds ∉ fds := lowestFd_notMem fds
        have hwrite := lowestFd_notMem (insert (lowestFd fds) fds)
        simp only [Finset.mem_insert, not_or] at hwrite hnew
        refine ⟨by rw [List.length_cons, hlength], ?_, ?_⟩
        · show (_ :: _ :: descriptors rest).Nodup
          refine List.nodup_cons.mpr ⟨fun hmem => ?_, List.nodup_cons.mpr ⟨fun hmem => ?_, hnodup⟩⟩
          · rcases List.mem_cons.mp hmem with heq | hmem
            · exact hwrite.1 heq.symm
            · exact (hnew _ hmem).2.1 rfl
          · exact (hnew _ hmem).1 rfl
        · intro fd hfd
          rcases List.mem_cons.mp hfd with rfl | hfd
          · exact hread
          · rcases List.mem_cons.mp hfd with rfl | hfd
            · exact hwrite.2
            · exact (hnew fd hfd).2.2
      · cases h

theorem forall_lt_succ_add {p : ℕ → Bool} {j n : ℕ} :
    (∀ i < n + 1, p (j + i) = true) ↔ p j = true ∧ ∀ i < n, p (j + 1 + i) = true := by
  rw [Nat.forall_lt_succ_left]
  simp only [Nat.add_zero, Nat.add_assoc, Nat.add_comm 1]

theorem makePipes_isOk_iff {fds : Finset ℕ} {j n : ℕ} :
    (∃ pfds, makePipes E fds j n = .ok pfds) ↔ ∀ i < n, E.pipe (j + i) = true := by
  induction n generalizing fds j with
  | zero => exact iff_of_true ⟨[], rfl⟩ nofun
  | succ n ih =>
      rw [makePipes, forall_lt_succ_add]
      split
      · rename_i hpipe
        constructor
        · rintro ⟨pfds, h⟩
          obtain ⟨rest, hrest, -⟩ := exceptMap_eq_ok h
          exact ⟨hpipe, ih.mp ⟨rest, hrest⟩⟩
        · rintro ⟨-, h⟩
          obtain ⟨rest, hrest⟩ := ih.mpr h
          exact ⟨_, congrArg (Except.map _) hrest⟩
      · rename_i hpipe
        exact iff_of_false (fun ⟨_, h⟩ => nomatch h) fun h => hpipe h.1

theorem makePipes_error {fds : Finset ℕ} {j n : ℕ} {ending : Ending}
    (h : makePipes E fds j n = .error ending) : ending.Failed := by
  induction n generalizing fds j with
  | zero => cases h
  | succ n ih =>
      rw [makePipes] at h
      split at h
      · exact ih (exceptMap_eq_error h)
      · cases h
        exact ⟨rfl, by simp [str]⟩

/-! ## The writes -/

variable (E) in
/-- How many of `k` writes, from the `j`-th on, are to the pipe `i`. -/
def hits (numPipes j k i : ℕ) : ℕ :=
  (List.range' j k).countP fun t => decide (randPipe E numPipes t = i)

theorem hits_succ (n j k i : ℕ) :
    hits E n j (k + 1) i = (if randPipe E n j = i then 1 else 0) + hits E n (j + 1) k i := by
  rw [hits, List.range'_succ, List.countP_cons, Nat.add_comm]
  simp [hits]

/-- The numbers of bytes after one write, and then `k` more. -/
theorem update_add_hits (bytes : ℕ → ℕ) (n j k i : ℕ) :
    Function.update bytes (randPipe E n j) (bytes (randPipe E n j) + 1) i + hits E n (j + 1) k i =
      bytes i + hits E n j (k + 1) i := by
  rw [hits_succ]
  by_cases h : randPipe E n j = i
  · rw [h, Function.update_self, if_pos rfl]
    omega
  · rw [Function.update_of_ne (Ne.symm h), if_neg h]
    omega

variable {pfds : List (ℕ × ℕ)}

theorem writeLoop_spec {j k : ℕ} {bytes bytes' : ℕ → ℕ}
    (h : (writeLoop E pfds j bytes k).2 = .ok bytes') :
    (writeLoop E pfds j bytes k).1 = (List.range' j k).map (writingLine E pfds) ∧
      ∀ i, bytes' i = bytes i + hits E pfds.length j k i := by
  induction k generalizing j bytes with
  | zero =>
      obtain rfl := Except.ok.inj h
      exact ⟨rfl, fun i => rfl⟩
  | succ k ih =>
      rw [writeLoop] at h ⊢
      split at h
      · cases h
      · split at h
        · cases h
        · split at h
          · rename_i hpipes hwrite hroom
            obtain ⟨hlines, hbytes⟩ := ih h
            rw [if_neg hpipes, if_neg hwrite, if_pos hroom]
            refine ⟨?_, fun i => ?_⟩
            · rw [List.range'_succ, List.map_cons, ← hlines]
            · rw [hbytes i, update_add_hits]
          · cases h

theorem writeLoop_error {j k : ℕ} {bytes : ℕ → ℕ} {ending : Ending}
    (h : (writeLoop E pfds j bytes k).2 = .error ending) : ending.Failed := by
  induction k generalizing j bytes with
  | zero => cases h
  | succ k ih =>
      rw [writeLoop] at h
      split at h
      · cases h
        trivial
      · split at h
        · cases h
          exact ⟨rfl, by simp [str]⟩
        · split at h
          · exact ih h
          · cases h
            trivial

/-- When all writes return. -/
theorem writeLoop_isOk_iff {j k : ℕ} {bytes : ℕ → ℕ} (hroom : ∀ i, bytes i ≤ E.capacity i) :
    (∃ bytes', (writeLoop E pfds j bytes k).2 = .ok bytes') ↔
      (pfds.length = 0 → k = 0) ∧ (∀ t < k, E.write (j + t) = true) ∧
        ∀ i, bytes i + hits E pfds.length j k i ≤ E.capacity i := by
  induction k generalizing j bytes with
  | zero => exact iff_of_true ⟨bytes, rfl⟩ ⟨fun _ => rfl, nofun, hroom⟩
  | succ k ih =>
      rw [writeLoop, forall_lt_succ_add]
      split
      · rename_i hpipes
        exact iff_of_false (fun ⟨_, h⟩ => nomatch h) fun h => nomatch h.1 hpipes
      · rename_i hpipes
        split
        · rename_i hwrite
          refine iff_of_false (fun ⟨_, h⟩ => nomatch h) fun h => ?_
          exact absurd h.2.1.1 (by rw [hwrite]; decide)
        · rename_i hwrite
          have hwrite : E.write j = true := by simpa using hwrite
          split
          · rename_i hlt
            have hroom' : ∀ i, Function.update bytes (randPipe E pfds.length j)
                (bytes (randPipe E pfds.length j) + 1) i ≤ E.capacity i := fun i => by
              by_cases h : i = randPipe E pfds.length j
              · rw [h, Function.update_self]
                exact hlt
              · rw [Function.update_of_ne h]
                exact hroom i
            refine (ih hroom').trans ?_
            simp only [update_add_hits]
            constructor
            · rintro ⟨-, hwrites, hbytes⟩
              exact ⟨fun h => absurd h hpipes, ⟨hwrite, hwrites⟩, hbytes⟩
            · rintro ⟨-, hwrites, hbytes⟩
              exact ⟨fun h => absurd h hpipes, hwrites.2, hbytes⟩
          · rename_i hfull
            refine iff_of_false (fun ⟨_, h⟩ => nomatch h) fun h => ?_
            have hbytes := h.2.2 (randPipe E pfds.length j)
            rw [hits_succ, if_pos rfl] at hbytes
            omega

/-! ## The program -/

variable (E) in
/-- The pipes to which one of `k` writes goes, in their order. -/
def written (n k : ℕ) : List ℕ :=
  (List.range n).filter fun i => decide (∃ j < k, randPipe E n j = i)

theorem hits_pos_iff (n k i : ℕ) : 0 < hits E n 0 k i ↔ ∃ j < k, randPipe E n j = i := by
  rw [hits, List.countP_pos_iff]
  simp

theorem readyPipes_eq {n k : ℕ} {bytes : ℕ → ℕ} (h : ∀ i, bytes i = 0 + hits E n 0 k i) :
    readyPipes n bytes = written E n k := by
  refine List.filter_congr fun i _ => ?_
  rw [h i, Nat.zero_add]
  exact decide_eq_decide.mpr (hits_pos_iff n k i)

/-- For all arguments the program succeeds without a message, or it fails; an exit with failure has
one. -/
theorem pollPipes_ending (argv : List (List UInt8)) :
    (pollPipes E argv).ending = .exited EXIT_SUCCESS [] ∨ (pollPipes E argv).ending.Failed := by
  rw [pollPipes]
  split
  · exact .inr ⟨rfl, by simp [str]⟩
  split
  · exact .inr ⟨rfl, by simp [str]⟩
  split
  · rename_i hpipes
    exact .inr (makePipes_error hpipes)
  split
  · rename_i hloop
    exact .inr (writeLoop_error (congrArg Prod.snd hloop))
  split
  · exact .inr ⟨rfl, by simp [str]⟩
  · exact .inl rfl

/-- Three descriptors are open, and `random` returns 4 and then 7. -/
def sampleEnv : Env where
  fds := {0, 1, 2}
  capacity _ := 65536
  random j := 4 + 3 * j
  calloc := true
  pipe _ := true
  write _ := true
  poll := true

variable (E) in
/-- The calls succeed, and no pipe becomes full. -/
structure Succeeds (n k : ℕ) : Prop where
  calloc : E.calloc = true
  pipe : ∀ j < n, E.pipe j = true
  divides : n = 0 → k = 0
  write : ∀ j < k, E.write j = true
  room : ∀ i, hits E n 0 k i ≤ E.capacity i
  poll : E.poll = true

/-- The program has come to its end: its pipes, and how many bytes are in them. -/
structure Done (E : Env) (argv : List (List UInt8)) (pfds : List (ℕ × ℕ)) (bytes : ℕ → ℕ) :
    Prop where
  nonneg : 0 ≤ numPipes argv
  calloc : E.calloc = true
  pipes : makePipes E E.fds 0 (numPipes argv).toNat = .ok pfds
  writes : (writeLoop E pfds 0 (fun _ => 0) (numWrites argv).toNat).2 = .ok bytes
  poll : E.poll = true

theorem Done.pollPipes {argv : List (List UInt8)} {bytes : ℕ → ℕ} (h : Done E argv pfds bytes)
    (hargs : usage argv = false) :
    pollPipes E argv =
      ⟨.exited EXIT_SUCCESS [],
        (writeLoop E pfds 0 (fun _ => 0) (numWrites argv).toNat).1 ++
          .returned (readyPipes pfds.length bytes).length ::
          (readyPipes pfds.length bytes).map fun i => .readable (pair pfds i).1⟩ := by
  have hcalloc : ¬ (numPipes argv < 0 ∨ E.calloc = false) := by
    simp [h.calloc, h.nonneg]
  have hwrites := h.writes
  rw [PollPipes.pollPipes, if_neg (Bool.eq_false_iff.mp hargs), if_neg hcalloc, h.pipes]
  dsimp only
  cases hloop : writeLoop E pfds 0 (fun _ => 0) (numWrites argv).toNat with
  | mk lines outcome =>
      rw [hloop] at hwrites
      obtain rfl : outcome = .ok bytes := hwrites
      simp [h.poll]

/-- With success, the program has come to its end. -/
theorem done_of_success {argv : List (List UInt8)} (hargs : usage argv = false)
    (h : (pollPipes E argv).ending = .exited EXIT_SUCCESS []) :
    ∃ pfds bytes, Done E argv pfds bytes := by
  rw [pollPipes, if_neg (Bool.eq_false_iff.mp hargs)] at h
  split at h
  · exact absurd h (by decide)
  rename_i hcalloc
  obtain ⟨hnonneg, hcalloc⟩ := not_or.mp hcalloc
  split at h
  · rename_i hpipes
    exact absurd h (makePipes_error hpipes).ne
  rename_i pfds hpipes
  split at h
  · rename_i hloop
    exact absurd h (writeLoop_error (congrArg Prod.snd hloop)).ne
  rename_i lines bytes hloop
  split at h
  · cases h
  rename_i hpoll
  exact ⟨pfds, bytes, not_lt.mp hnonneg, by simpa using hcalloc, hpipes, congrArg Prod.snd hloop,
    by simpa using hpoll⟩

theorem exists_done_iff (argv : List (List UInt8)) :
    (∃ pfds bytes, Done E argv pfds bytes) ↔
      0 ≤ numPipes argv ∧ Succeeds E (numPipes argv).toNat (numWrites argv).toNat := by
  have hpipe : (∃ pfds, makePipes E E.fds 0 (numPipes argv).toNat = .ok pfds) ↔ _ :=
    makePipes_isOk_iff
  have hwrite (pfds : List (ℕ × ℕ)) :
      (∃ bytes, (writeLoop E pfds 0 (fun _ => 0) (numWrites argv).toNat).2 = .ok bytes) ↔ _ :=
    writeLoop_isOk_iff fun _ => Nat.zero_le _
  simp only [Nat.zero_add] at hpipe hwrite
  constructor
  · rintro ⟨pfds, bytes, h⟩
    obtain ⟨hdivides, hwrites, hroom⟩ := (hwrite pfds).mp ⟨bytes, h.writes⟩
    rw [(makePipes_spec h.pipes).1] at hdivides hroom
    exact ⟨h.nonneg, h.calloc, hpipe.mp ⟨pfds, h.pipes⟩, hdivides, hwrites, hroom, h.poll⟩
  · rintro ⟨hnonneg, h⟩
    obtain ⟨pfds, hpfds⟩ := hpipe.mpr h.pipe
    have hlength := (makePipes_spec hpfds).1
    obtain ⟨bytes, hbytes⟩ := (hwrite pfds).mpr
      ⟨by rw [hlength]; exact h.divides, h.write, by rw [hlength]; exact h.room⟩
    exact ⟨pfds, bytes, hnonneg, h.calloc, hpfds, hbytes, h.poll⟩

/-- **Which pipes can be read.** For all arguments and whatever `random` returns, and with the
standard output open at the start: the program exits successfully exactly if the number of pipes is
not negative, there is a pipe if there is a write, no call fails and no pipe is written more often
than it can hold. Its pipes then have different descriptors that were not in use, it has written to
one pipe after the other as `random` says, and it reports exactly the pipes that it has written to,
each once and in their order, and their number. -/
theorem readable_pipes (argv : List (List UInt8)) (hargs : usage argv = false)
    (hstdout : 1 ∈ E.fds) :
    ((pollPipes E argv).ending = .exited EXIT_SUCCESS [] ↔
      0 ≤ numPipes argv ∧ Succeeds E (numPipes argv).toNat (numWrites argv).toNat) ∧
    ((pollPipes E argv).ending = .exited EXIT_SUCCESS [] →
      ∃ pfds, pfds.length = (numPipes argv).toNat ∧ (descriptors pfds).Nodup ∧
        (∀ fd ∈ descriptors pfds, fd ∉ E.fds ∧ fd ≠ 1) ∧
        (pollPipes E argv).stdout =
          (List.range (numWrites argv).toNat).map (writingLine E pfds) ++
            .returned (written E pfds.length (numWrites argv).toNat).length ::
            (written E pfds.length (numWrites argv).toNat).map fun i =>
              .readable (pair pfds i).1) := by
  refine ⟨⟨fun h => (exists_done_iff argv).mp (done_of_success hargs h), fun h => ?_⟩, fun h => ?_⟩
  · obtain ⟨pfds, bytes, hdone⟩ := (exists_done_iff argv).mpr h
    rw [hdone.pollPipes hargs]
  · obtain ⟨pfds, bytes, hdone⟩ := done_of_success hargs h
    obtain ⟨hlength, hnodup, hnew⟩ := makePipes_spec hdone.pipes
    obtain ⟨hlines, hbytes⟩ := writeLoop_spec hdone.writes
    refine ⟨pfds, hlength, hnodup, fun fd hfd => ⟨hnew fd hfd, ?_⟩, ?_⟩
    · rintro rfl
      exact hnew 1 hfd hstdout
    · rw [hdone.pollPipes hargs, readyPipes_eq hbytes, hlines, List.range_eq_range']

/-- Both writes go to the second of three pipes. -/
theorem readable_pipes_sampleEnv :
    (pollPipes sampleEnv [str "poll_pipes", str "3", str "2"]).ending = .exited EXIT_SUCCESS [] ∧
      Succeeds sampleEnv 3 2 ∧ written sampleEnv 3 2 = [1] := by
  have hending : (pollPipes sampleEnv [str "poll_pipes", str "3", str "2"]).ending =
      .exited EXIT_SUCCESS [] := by decide +kernel
  have hiff := (readable_pipes (E := sampleEnv) [str "poll_pipes", str "3", str "2"]
    (by decide) (by decide)).1
  exact ⟨hending, (hiff.mp hending).2, by decide⟩

end Tlpi.PollPipes
