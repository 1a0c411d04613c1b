import Tlpi.PipesAndFifo.PipeLsWc

set_option autoImplicit false

/-! # Runs of the pipeline (pipes_and_fifo/pipe_ls_wc.c)

The bytes that `ls` writes reach `wc` complete and in order, `wc` sees the end of file after the
last one, and the three processes never wait for each other in a circle: after the forks each
process closes the ends it does not use, so that the end of one process is seen by the others.
-/

namespace Tlpi.PipeLsWc

variable {S : Setting} {g g' : Shared} {ps : List Proc} {x : Proc} {pc pc' : Pc} {a : Call}
variable {w v w₀ : ForkWorld Shared Proc} {as : List (ForkAct Call)}

/-! ## The bytes -/

/-- The bytes that a process at `pc`, or the child it will make, has still to write. -/
def Setting.rest (S : Setting) : Pc → Option (List UInt8)
  | .pipe => some S.output
  | .fork1 => some S.output
  | .lsClose => some S.output
  | .lsDup2 => some S.output
  | .lsCloseDup => some S.output
  | .lsExec => some S.output
  | .ls rest => some rest
  | .lsExited => some []
  | _ => none

/-- The newlines that a process at `pc`, or the child it will make, has read. -/
def Pc.lines : Pc → Option ℕ
  | .pipe => some 0
  | .fork1 => some 0
  | .fork2 => some 0
  | .wcClose => some 0
  | .wcDup2 => some 0
  | .wcCloseDup => some 0
  | .wcExec => some 0
  | .wc lines => some lines
  | .counted lines => some lines
  | _ => none

/-- `lines` newlines have been read, the others are in the pipe. -/
def Shared.Balanced (g : Shared) (lines : ℕ) : Prop :=
  g.written.count newline = lines + g.buf.count newline

variable (S) in
/-- No byte is lost between the two filters, and `wc` ends after the last byte only. -/
structure Flow (w : ForkWorld Shared Proc) : Prop where
  written : w.shared.written <+: S.output
  rest : ∀ (k : ℕ) (x : Proc), w.procs[k]? = some x →
    ∀ rest, S.rest x.pc = some rest → S.output = w.shared.written ++ rest
  lines : ∀ (k : ℕ) (x : Proc), w.procs[k]? = some x →
    ∀ lines, x.pc.lines = some lines → w.shared.Balanced lines
  counted : ∀ (k : ℕ) (x : Proc), w.procs[k]? = some x → ∀ lines, x.pc = .counted lines →
    w.shared.buf = [] ∧ ∀ y ∈ w.procs, y.pc.canWrite = false

theorem Move.rest (h : Move S g ps pc a g' pc') {rest' : List UInt8}
    (hrest : S.rest pc' = some rest') :
    ∃ rest, S.rest pc = some rest ∧ g.written ++ rest = g'.written ++ rest' := by
  cases h with
  | write rest n hn =>
      obtain rfl := Option.some.inj hrest
      refine ⟨rest, rfl, ?_⟩
      rw [List.append_assoc, List.take_append_drop]
  | lsEnd => exact ⟨[], rfl, by rw [← Option.some.inj hrest]⟩
  | _ => first | exact ⟨rest', hrest, rfl⟩ | cases hrest

theorem Move.written (h : Move S g ps pc a g' pc') :
    g'.written = g.written ∨ ∃ rest rest', pc = .ls rest ∧ pc' = .ls rest' := by
  cases h with
  | write rest n hn => exact Or.inr ⟨rest, _, rfl, rfl⟩
  | _ => exact Or.inl rfl

theorem Move.lines (h : Move S g ps pc a g' pc') {lines' : ℕ} (hlines : pc'.lines = some lines') :
    ∃ lines, pc.lines = some lines ∧ (g.Balanced lines → g'.Balanced lines') := by
  cases h with
  | read lines n hn =>
      obtain rfl := Option.some.inj hlines
      refine ⟨lines, rfl, fun hbal => ?_⟩
      have hsplit := congrArg (List.count newline) (List.take_append_drop (n + 1) g.buf)
      rw [List.count_append] at hsplit
      simp only [Shared.Balanced] at hbal ⊢
      omega
  | _ => first | exact ⟨lines', hlines, id⟩ | cases hlines

theorem Move.balanced (h : Move S g ps pc a g' pc') :
    (∃ lines, pc = .wc lines) ∨ ∀ lines, g.Balanced lines → g'.Balanced lines := by
  cases h with
  | read lines n hn => exact Or.inl ⟨lines, rfl⟩
  | write rest n hn =>
      refine Or.inr fun lines hbal => ?_
      simp only [Shared.Balanced, List.count_append] at hbal ⊢
      omega
  | _ => exact Or.inr fun _ hbal => hbal

theorem Move.canWrite (h : Move S g ps pc a g' pc') (hpipe : pc ≠ .pipe)
    (hpc : pc.canWrite = false) : pc'.canWrite = false := by
  cases h <;> first | rfl | exact absurd rfl hpipe | cases hpc

theorem Move.buf (h : Move S g ps pc a g' pc') (hbuf : g.buf = []) (hpc : pc.canWrite = false) :
    g'.buf = [] := by
  cases h with
  | write rest n hn => cases hpc
  | read lines n hn => rw [hbuf, List.drop_nil]
  | _ => exact hbuf

theorem fork_flow {f : Fork Proc} (hf : x.fork = some f) :
    x.pc.canWrite = true ∧
      (∀ z, z = f.parent ∨ z = f.child ∨ z = f.failed →
        (∀ rest, S.rest z.pc = some rest → S.rest x.pc = some rest) ∧
        (∀ lines, z.pc.lines = some lines → x.pc.lines = some lines) ∧
        ∀ lines, z.pc ≠ .counted lines) := by
  obtain ⟨hfailed, n, child, parent, hpcs, hchild, hparent⟩ := fork_cases hf
  rw [hchild, hparent, hfailed]
  rcases hpcs with ⟨hpc, -, rfl, rfl⟩ | ⟨hpc, -, rfl, rfl⟩
  · refine ⟨by rw [hpc]; rfl, ?_⟩
    rw [hpc]
    rintro z (rfl | rfl | rfl)
    · exact ⟨nofun, fun _ h => h, nofun⟩
    · exact ⟨fun _ h => h, nofun, nofun⟩
    · exact ⟨nofun, nofun, nofun⟩
  · refine ⟨by rw [hpc]; rfl, ?_⟩
    rw [hpc]
    rintro z (rfl | rfl | rfl)
    · exact ⟨nofun, nofun, nofun⟩
    · exact ⟨nofun, fun _ h => h, nofun⟩
    · exact ⟨nofun, nofun, nofun⟩

/-- While `ls` runs, no other process has bytes to write. -/
theorem Shape.rest_alone (h : Shape S w) {k p : ℕ} {x z : Proc} {rest rest' : List UInt8}
    (hx : w.procs[p]? = some x) (hpc : x.pc = .ls rest) (hz : w.procs[k]? = some z)
    (hrest : S.rest z.pc = some rest') : k = p := by
  have hp := h.role p x hx 1 (by rw [hpc]; rfl)
  obtain ⟨hlt, -⟩ := List.getElem?_eq_some_iff.mp hx
  have hmade := h.made k z hz
  have hrole := h.role k z hz
  cases hzpc : z.pc <;> rw [hzpc] at hmade hrole hrest
  case pipe => have hone := hmade 1 rfl; omega
  case fork1 => have hone := hmade 1 rfl; omega
  all_goals first | exact (hrole 1 rfl).symm.trans hp | cases hrest

/-- While `wc` runs, no other process counts lines. -/
theorem Shape.lines_alone (h : Shape S w) {k p : ℕ} {x z : Proc} {lines lines' : ℕ}
    (hx : w.procs[p]? = some x) (hpc : x.pc = .wc lines) (hz : w.procs[k]? = some z)
    (hlines : z.pc.lines = some lines') : k = p := by
  have hp := h.role p x hx 2 (by rw [hpc]; rfl)
  obtain ⟨hlt, -⟩ := List.getElem?_eq_some_iff.mp hx
  have hmade := h.made k z hz
  have hrole := h.role k z hz
  cases hzpc : z.pc <;> rw [hzpc] at hmade hrole hlines
  case pipe => have hone := hmade 1 rfl; omega
  case fork1 => have hone := hmade 1 rfl; omega
  case fork2 => have htwo := hmade 2 rfl; omega
  all_goals first | exact (hrole 2 rfl).symm.trans hp | cases hlines

theorem Flow.init (h : (program S).system.Init w) : Flow S w := by
  obtain ⟨x, ⟨hshared, rfl⟩, hprocs, -⟩ := h
  have hone : ∀ (k : ℕ) (x : Proc), w.procs[k]? = some x → x.pc = .pipe := by
    intro k y hk
    rw [hprocs] at hk
    rw [List.mem_singleton.mp (List.mem_of_getElem? hk)]
  refine ⟨by rw [hshared]; exact List.nil_prefix, ?_, ?_, ?_⟩
  · intro k y hk rest hrest
    rw [hone k y hk] at hrest
    rw [hshared, ← Option.some.inj hrest]
    rfl
  · intro k y hk lines hlines
    rw [hone k y hk] at hlines
    rw [hshared, ← Option.some.inj hlines]
    rfl
  · intro k y hk lines hpc
    rw [hone k y hk] at hpc
    cases hpc

theorem Flow.written_step {b : ForkAct Call} (h : Flow S w) (hs : Shape S w)
    (hstep : (program S).Step w b v) : v.shared.written <+: S.output := by
  cases hstep with
  | exec p c x y g hx hexec =>
      have hmove := (next_move (hs.each p x hx) hexec).1
      rcases hmove.written with hsame | ⟨-, rest', -, hpc'⟩
      · simp only [hsame]
        exact h.written
      · have hrest' : S.rest y.pc = some rest' := by rw [hpc']; rfl
        obtain ⟨rest, hrest, heq⟩ := hmove.rest hrest'
        exact ⟨rest', heq.symm.trans (h.rest p x hx rest hrest).symm⟩
  | forks p x f hx hf => exact h.written
  | fails p x f hx hf => exact h.written

theorem Flow.rest_step {b : ForkAct Call} (h : Flow S w) (hs : Shape S w)
    (hstep : (program S).Step w b v) :
    ∀ (k : ℕ) (x : Proc), v.procs[k]? = some x →
      ∀ rest, S.rest x.pc = some rest → S.output = v.shared.written ++ rest := by
  intro k z hk rest hrest
  cases hstep with
  | exec p c x y g hx hexec =>
      have hmove := (next_move (hs.each p x hx) hexec).1
      rcases ForkProg.getElem?_set_cases hk with ⟨rfl, rfl⟩ | ⟨hne, hk⟩
      · obtain ⟨rest₀, hrest₀, heq⟩ := hmove.rest hrest
        rw [h.rest k x hx rest₀ hrest₀, heq]
      · rcases hmove.written with hsame | ⟨rest₀, -, hpc, -⟩
        · simp only [hsame]
          exact h.rest k z hk rest hrest
        · exact absurd (hs.rest_alone hx hpc hk hrest) hne
  | forks p x f hx hf =>
      obtain ⟨-, hflow⟩ := fork_flow (S := S) hf
      rcases ForkProg.getElem?_fork_cases hk with ⟨rfl, rfl⟩ | ⟨rfl, rfl⟩ | ⟨-, -, hk⟩
      · exact h.rest k x hx rest ((hflow _ (Or.inl rfl)).1 rest hrest)
      · exact h.rest p x hx rest ((hflow _ (Or.inr (Or.inl rfl))).1 rest hrest)
      · exact h.rest k z hk rest hrest
  | fails p x f hx hf =>
      obtain ⟨-, hflow⟩ := fork_flow (S := S) hf
      rcases ForkProg.getElem?_set_cases hk with ⟨rfl, rfl⟩ | ⟨-, hk⟩
      · exact h.rest k x hx rest ((hflow _ (Or.inr (Or.inr rfl))).1 rest hrest)
      · exact h.rest k z hk rest hrest

theorem Flow.lines_step {b : ForkAct Call} (h : Flow S w) (hs : Shape S w)
    (hstep : (program S).Step w b v) :
    ∀ (k : ℕ) (x : Proc), v.procs[k]? = some x →
      ∀ lines, x.pc.lines = some lines → v.shared.Balanced lines := by
  intro k z hk lines hlines
  cases hstep with
  | exec p c x y g hx hexec =>
      have hmove := (next_move (hs.each p x hx) hexec).1
      rcases ForkProg.getElem?_set_cases hk with ⟨rfl, rfl⟩ | ⟨hne, hk⟩
      · obtain ⟨lines₀, hlines₀, hbal⟩ := hmove.lines hlines
        exact hbal (h.lines k x hx lines₀ hlines₀)
      · rcases hmove.balanced with ⟨lines₀, hpc⟩ | hbal
        · exact absurd (hs.lines_alone hx hpc hk hlines) hne
        · exact hbal lines (h.lines k z hk lines hlines)
  | forks p x f hx hf =>
      obtain ⟨-, hflow⟩ := fork_flow (S := S) hf
      rcases ForkProg.getElem?_fork_cases hk with ⟨rfl, rfl⟩ | ⟨rfl, rfl⟩ | ⟨-, -, hk⟩
      · exact h.lines k x hx lines ((hflow _ (Or.inl rfl)).2.1 lines hlines)
      · exact h.lines p x hx lines ((hflow _ (Or.inr (Or.inl rfl))).2.1 lines hlines)
      · exact h.lines k z hk lines hlines
  | fails p x f hx hf =>
      obtain ⟨-, hflow⟩ := fork_flow (S := S) hf
      rcases ForkProg.getElem?_set_cases hk with ⟨rfl, rfl⟩ | ⟨-, hk⟩
      · exact h.lines k x hx lines ((hflow _ (Or.inr (Or.inr rfl))).2.1 lines hlines)
      · exact h.lines k z hk lines hlines

theorem Flow.counted_step {b : ForkAct Call} (h : Flow S w) (hs : Shape S w)
    (hstep : (program S).Step w b v) :
    ∀ (k : ℕ) (x : Proc), v.procs[k]? = some x → ∀ lines, x.pc = .counted lines →
      v.shared.buf = [] ∧ ∀ y ∈ v.procs, y.pc.canWrite = false := by
  intro k z hk lines hpc
  have hk2 := hs.role_step hstep k z hk 2 (by rw [hpc]; rfl)
  cases hstep with
  | exec p c x y g hx hexec =>
      have hmove := (next_move (hs.each p x hx) hexec).1
      rcases ForkProg.getElem?_set_cases hk with ⟨rfl, rfl⟩ | ⟨hne, hk⟩
      · -- `wc` has seen the end of file
        rw [hpc] at hmove
        generalize x.pc = pc at hmove
        cases hmove with
        | eof _ n hbuf hno =>
            refine ⟨hbuf, fun y hy => ?_⟩
            rcases List.mem_or_eq_of_mem_set hy with hy | rfl
            · obtain ⟨j, hj⟩ := List.mem_iff_getElem?.mp hy
              rw [← Bool.not_eq_true, ← (hs.each j y hj).holds_writeEnd]
              exact fun hholds => hno ⟨y, hy, hholds⟩
            · rw [hpc]
              rfl
      · obtain ⟨hbuf, hno⟩ := h.counted k z hk lines hpc
        have hnox := hno x (List.mem_of_getElem? hx)
        have hpipe : x.pc ≠ .pipe := by
          intro hxpc
          obtain ⟨hlt, -⟩ := List.getElem?_eq_some_iff.mp hk
          have hlen := hs.made p x hx 1 (by rw [hxpc]; rfl)
          omega
        refine ⟨hmove.buf hbuf hnox, fun y' hy' => ?_⟩
        rcases List.mem_or_eq_of_mem_set hy' with hy' | rfl
        · exact hno y' hy'
        · exact hmove.canWrite hpipe hnox
  | forks p x f hx hf =>
      obtain ⟨hcan, hflow⟩ := fork_flow (S := S) hf
      rcases ForkProg.getElem?_fork_cases hk with ⟨-, rfl⟩ | ⟨-, rfl⟩ | ⟨-, -, hk⟩
      · exact absurd hpc ((hflow _ (Or.inl rfl)).2.2 lines)
      · exact absurd hpc ((hflow _ (Or.inr (Or.inl rfl))).2.2 lines)
      · have hno := (h.counted k z hk lines hpc).2 x (List.mem_of_getElem? hx)
        rw [hcan] at hno
        cases hno
  | fails p x f hx hf =>
      obtain ⟨hcan, hflow⟩ := fork_flow (S := S) hf
      rcases ForkProg.getElem?_set_cases hk with ⟨-, rfl⟩ | ⟨-, hk⟩
      · exact absurd hpc ((hflow _ (Or.inr (Or.inr rfl))).2.2 lines)
      · have hno := (h.counted k z hk lines hpc).2 x (List.mem_of_getElem? hx)
        rw [hcan] at hno
        cases hno

theorem Flow.step {b : ForkAct Call} (h : Flow S w) (hs : Shape S w)
    (hstep : (program S).Step w b v) : Flow S v :=
  ⟨h.written_step hs hstep, h.rest_step hs hstep, h.lines_step hs hstep, h.counted_step hs hstep⟩

/-! ## Every run ends -/

/-- A bound on the steps that a process at `pc` and its children have left, apart from those that
empty the pipe. -/
def Setting.rank (S : Setting) : Pc → ℕ
  | .pipe => 2 * S.output.length + 17
  | .fork1 => 2 * S.output.length + 16
  | .lsClose => 2 * S.output.length + 5
  | .lsDup2 => 2 * S.output.length + 4
  | .lsCloseDup => 2 * S.output.length + 3
  | .lsExec => 2 * S.output.length + 2
  | .ls rest => 2 * rest.length + 1
  | .fork2 => 10
  | .wcClose => 5
  | .wcDup2 => 4
  | .wcCloseDup => 3
  | .wcExec => 2
  | .wc _ => 1
  | .close0 => 4
  | .close1 => 3
  | .wait1 => 2
  | .wait2 => 1
  | .failed _ => 0
  | .exited => 0
  | .lsExited => 0
  | .counted _ => 0
  | .killed => 0

def Setting.variant (S : Setting) (w : ForkWorld Shared Proc) : ℕ :=
  (w.procs.map fun x => S.rank x.pc).sum + w.shared.buf.length

theorem rank_pos (h : pc.ended = false) : 0 < S.rank pc := by
  cases pc <;> first | exact Nat.succ_pos _ | cases h

theorem Move.rank (h : Move S g ps pc a g' pc') :
    S.rank pc' + g'.buf.length < S.rank pc + g.buf.length := by
  cases h with
  | fail pc error h => simpa [Setting.rank] using rank_pos (S := S) h
  | kill pc h => simpa [Setting.rank] using rank_pos (S := S) h
  | write rest n hn =>
      simp only [Setting.rank, List.length_append, List.length_take, List.length_drop]
      omega
  | read lines n hn =>
      simp only [Setting.rank, List.length_drop]
      omega
  | _ => simp only [Setting.rank, List.length_nil]; omega

theorem fork_rank {f : Fork Proc} (hf : x.fork = some f) :
    S.rank f.parent.pc + S.rank f.child.pc < S.rank x.pc ∧ S.rank f.failed.pc < S.rank x.pc := by
  obtain ⟨hfailed, n, child, parent, hpcs, hchild, hparent⟩ := fork_cases hf
  rw [hchild, hparent, hfailed]
  rcases hpcs with ⟨hpc, -, rfl, rfl⟩ | ⟨hpc, -, rfl, rfl⟩
  · rw [hpc]
    simp only [Setting.rank, Proc.finish]
    omega
  · rw [hpc]
    simp only [Setting.rank, Proc.finish]
    omega

theorem variant_lt {b : ForkAct Call} (hs : Shape S w) (hstep : (program S).Step w b v) :
    S.variant v < S.variant w := by
  simp only [Setting.variant]
  cases hstep with
  | exec p c x y g hx hexec =>
      have hsum := ForkProg.sum_map_set (fun x : Proc => S.rank x.pc) hx y
      have hrank := (next_move (hs.each p x hx) hexec).1.rank
      simp only
      omega
  | forks p x f hx hf =>
      have hsum := ForkProg.sum_map_set (fun x : Proc => S.rank x.pc) hx f.parent
      have hrank := (fork_rank (S := S) hf).1
      simp only [List.map_append, List.sum_append, List.map_cons, List.map_nil, List.sum_cons,
        List.sum_nil]
      omega
  | fails p x f hx hf =>
      have hsum := ForkProg.sum_map_set (fun x : Proc => S.rank x.pc) hx f.failed
      have hrank := (fork_rank (S := S) hf).2
      simp only
      omega

/-! ## No run gets stuck before all processes have ended -/

/-- A step that is no failed call and no signal from outside. -/
def Succeeds : ForkAct Call → Prop
  | .exec _ .go => True
  | .exec _ (.transfer _) => True
  | .exec _ .fail => False
  | .exec _ .kill => False
  | .fork _ ok => ok = true

theorem close_ne_none (hx : Local S x) {fd : ℕ} {f : File} {pc' : Pc} (hpc : x.pc = pc)
    (hfile : (S.table pc).file fd = some f) : x.close fd pc' ≠ none := by
  have hmem : fd ∈ x.fds.fds := by
    rw [x.fds.mem_fds, hx.fds, hpc, hfile]
    rfl
  rw [Proc.close, if_pos hmem]
  exact nofun

theorem dup2_ne_none (hx : Local S x) {old new : ℕ} {f : File} {pc' : Pc} (hpc : x.pc = pc)
    (hfile : (S.table pc).file old = some f) : x.dup2 old new pc' ≠ none := by
  rw [Proc.dup2, FdTable.dup2, hx.fds, hpc, hfile]
  exact nofun

theorem both_fd1 : S.both.file S.fd1 = some .writeEnd := by
  rw [Setting.both, FdTable.set_file, Function.update_self]

/-- The places at which a process may have to wait for another one. -/
def Pc.blocks : Pc → Bool
  | .wait1 => true
  | .wait2 => true
  | .ls (_ :: _) => true
  | .wc _ => true
  | _ => false

def Pc.forks : Pc → Bool
  | .fork1 => true
  | .fork2 => true
  | _ => false

theorem go_ne_none (hx : Local S x) (hended : x.pc.ended = false) (hblocks : x.pc.blocks = false)
    (hforks : x.pc.forks = false) : go S ps x ≠ none := by
  obtain ⟨pc, fds, filedes⟩ := x
  cases pc with
  | lsClose =>
      obtain rfl := hx.filedes nofun rfl
      exact close_ne_none hx rfl both_fd0
  | lsDup2 =>
      obtain rfl := hx.filedes nofun rfl
      exact dup2_ne_none hx rfl set_fd1_file
  | lsCloseDup =>
      obtain rfl := hx.filedes nofun rfl
      refine close_ne_none hx rfl (f := .writeEnd) ?_
      rw [Setting.table, FdTable.set_file, Function.update_of_ne hx.tested]
      exact set_fd1_file
  | wcClose =>
      obtain rfl := hx.filedes nofun rfl
      exact close_ne_none hx rfl both_fd1
  | wcDup2 =>
      obtain rfl := hx.filedes nofun rfl
      exact dup2_ne_none hx rfl set_fd0_file
  | wcCloseDup =>
      obtain rfl := hx.filedes nofun rfl
      refine close_ne_none hx rfl (f := .readEnd) ?_
      rw [Setting.table, FdTable.set_file, Function.update_of_ne hx.tested]
      exact set_fd0_file
  | close0 =>
      obtain rfl := hx.filedes nofun rfl
      exact close_ne_none hx rfl both_fd0
  | close1 =>
      obtain rfl := hx.filedes nofun rfl
      exact close_ne_none hx rfl set_fd1_file
  | ls rest =>
      cases rest with
      | nil => exact nofun
      | cons b rest => cases hblocks
  | fork1 => cases hforks
  | fork2 => cases hforks
  | wait1 => cases hblocks
  | wait2 => cases hblocks
  | wc lines => cases hblocks
  | _ => first | exact Option.some_ne_none _ | cases hended

theorem fork_ne_none (h : x.pc.forks = true) : x.fork ≠ none := by
  obtain ⟨pc, fds, filedes⟩ := x
  cases pc <;> first | exact Option.some_ne_none _ | cases h

/-- In a state that is stuck every process has ended or waits for another one. -/
theorem Shape.ended_or_blocks (hs : Shape S w) (hstuck : (program S).system.Stuck Succeeds w)
    {k : ℕ} (hx : w.procs[k]? = some x) : x.pc.ended = true ∨ x.pc.blocks = true := by
  by_contra hno
  rw [not_or, Bool.not_eq_true, Bool.not_eq_true] at hno
  obtain ⟨hended, hblocks⟩ := hno
  cases hforks : x.pc.forks with
  | true =>
      have hnone := hstuck (.fork k true) rfl
      simp only [ForkProg.system, ForkProg.next, hx, Option.bind_some,
        Option.map_eq_none_iff] at hnone
      exact fork_ne_none hforks hnone
  | false =>
      have hnone := hstuck (.exec k .go) trivial
      simp only [ForkProg.system, ForkProg.next, hx, Option.bind_some, program, next,
        Option.map_eq_none_iff] at hnone
      exact go_ne_none (hs.each k x hx) hended hblocks hforks hnone

theorem Shape.transfer_none {k : ℕ} (hstuck : (program S).system.Stuck Succeeds w)
    (hx : w.procs[k]? = some x) : transfer S w.shared w.procs x 0 = none := by
  have hnone := hstuck (.exec k (.transfer 0)) trivial
  simpa only [ForkProg.system, ForkProg.next, hx, Option.bind_some, program, next,
    Option.map_eq_none_iff] using hnone

/-- `ls` is stuck only if the pipe is full and some process can read from it. -/
theorem Shape.ls_stuck (hs : Shape S w) (hstuck : (program S).system.Stuck Succeeds w) {k : ℕ}
    (hx : w.procs[k]? = some x) {b : UInt8} {rest : List UInt8} (hpc : x.pc = .ls (b :: rest)) :
    w.shared.buf ≠ [] ∧ ∃ y ∈ w.procs, y.fds.Holds .readEnd := by
  have hnone := Shape.transfer_none hstuck hx
  have hfile : x.fds.file STDOUT_FILENO = some .writeEnd := by
    rw [(hs.each k x hx).fds, hpc, Setting.table, FdTable.set_file, Function.update_self]
  simp only [transfer, hpc, write] at hnone
  rw [if_neg (not_not.mpr hfile)] at hnone
  split at hnone
  · cases hnone
  · rename_i hreader
    refine ⟨fun hbuf => ?_, not_not.mp hreader⟩
    have hroom : 0 + 1 ≤ (b :: rest).length ∧ w.shared.buf.length + (0 + 1) ≤ S.capacity := by
      rw [hbuf]
      exact ⟨Nat.succ_le_succ (Nat.zero_le _), by simpa using Nat.succ_le_of_lt S.capacity_pos⟩
    rw [if_pos hroom] at hnone
    cases hnone

/-- `wc` is stuck only if the pipe is empty and some process can write to it. -/
theorem Shape.wc_stuck (hs : Shape S w) (hstuck : (program S).system.Stuck Succeeds w) {k : ℕ}
    (hx : w.procs[k]? = some x) {lines : ℕ} (hpc : x.pc = .wc lines) :
    w.shared.buf = [] ∧ ∃ y ∈ w.procs, y.fds.Holds .writeEnd := by
  have hnone := Shape.transfer_none hstuck hx
  have hfile : x.fds.file STDIN_FILENO = some .readEnd := by
    rw [(hs.each k x hx).fds, hpc, Setting.table, FdTable.set_file, Function.update_self]
  simp only [transfer, hpc, read] at hnone
  rw [if_neg (not_not.mpr hfile)] at hnone
  split_ifs at hnone with hbuf hwriter hlen
  · exact ⟨hbuf, hwriter⟩
  · exact absurd (List.length_pos_iff.mpr hbuf) hlen

theorem blocks_cases (h : pc.blocks = true) :
    pc.canRead = true ∧ (∃ lines, pc = .wc lines) ∨
      pc.canWrite = true ∧ (∃ b rest, pc = .ls (b :: rest)) ∨
      pc.canRead = false ∧ pc.canWrite = false ∧ pc.made = some 3 := by
  cases pc with
  | wc lines => exact Or.inl ⟨rfl, lines, rfl⟩
  | ls rest =>
      cases rest with
      | nil => cases h
      | cons b rest => exact Or.inr (Or.inl ⟨rfl, b, rest, rfl⟩)
  | wait1 => exact Or.inr (Or.inr ⟨rfl, rfl, rfl⟩)
  | wait2 => exact Or.inr (Or.inr ⟨rfl, rfl, rfl⟩)
  | _ => cases h

theorem ended_ends (h : pc.ended = true) : pc.canRead = false ∧ pc.canWrite = false := by
  cases pc <;> first | exact ⟨rfl, rfl⟩ | cases h

theorem Shape.no_wc (hs : Shape S w) (hstuck : (program S).system.Stuck Succeeds w) {k : ℕ}
    (hx : w.procs[k]? = some x) (lines : ℕ) : x.pc ≠ .wc lines := by
  intro hpc
  obtain ⟨hbuf, y, hy, hwriter⟩ := hs.wc_stuck hstuck hx hpc
  obtain ⟨j, hj⟩ := List.mem_iff_getElem?.mp hy
  rw [(hs.each j y hj).holds_writeEnd] at hwriter
  rcases hs.ended_or_blocks hstuck hj with hended | hblocks
  · exact nomatch hwriter.symm.trans (ended_ends hended).2
  · rcases blocks_cases hblocks with ⟨-, lines', hypc⟩ | ⟨-, b, rest, hypc⟩ | ⟨-, hno, -⟩
    · rw [hypc] at hwriter
      cases hwriter
    · exact (hs.ls_stuck hstuck hj hypc).1 hbuf
    · exact nomatch hwriter.symm.trans hno

theorem Shape.no_ls (hs : Shape S w) (hstuck : (program S).system.Stuck Succeeds w) {k : ℕ}
    (hx : w.procs[k]? = some x) (b : UInt8) (rest : List UInt8) : x.pc ≠ .ls (b :: rest) := by
  intro hpc
  obtain ⟨-, y, hy, hreader⟩ := hs.ls_stuck hstuck hx hpc
  obtain ⟨j, hj⟩ := List.mem_iff_getElem?.mp hy
  rw [(hs.each j y hj).holds_readEnd] at hreader
  rcases hs.ended_or_blocks hstuck hj with hended | hblocks
  · exact nomatch hreader.symm.trans (ended_ends hended).1
  · rcases blocks_cases hblocks with ⟨-, lines, hypc⟩ | ⟨-, b', rest', hypc⟩ | ⟨hno, -, -⟩
    · exact hs.no_wc hstuck hj lines hypc
    · rw [hypc] at hreader
      cases hreader
    · exact nomatch hreader.symm.trans hno

/-- In a state that is stuck the children have ended. -/
theorem Shape.child_ended (hs : Shape S w) (hstuck : (program S).system.Stuck Succeeds w) {k : ℕ}
    (hx : w.procs[k]? = some x) (hk : k ≠ 0) : x.pc.ended = true := by
  rcases hs.ended_or_blocks hstuck hx with hended | hblocks
  · exact hended
  · rcases blocks_cases hblocks with ⟨-, lines, hpc⟩ | ⟨-, b, rest, hpc⟩ | ⟨-, -, hmade⟩
    · exact absurd hpc (hs.no_wc hstuck hx lines)
    · exact absurd hpc (hs.no_ls hstuck hx b rest)
    · exact absurd (hs.role k x hx 0 (role_of_made hmade)).symm hk

theorem Shape.all_ended (hs : Shape S w) (hstuck : (program S).system.Stuck Succeeds w) :
    ∀ x ∈ w.procs, x.hasEnded = true := by
  intro x hx
  obtain ⟨k, hk⟩ := List.mem_iff_getElem?.mp hx
  by_cases hzero : k = 0
  · rcases hs.ended_or_blocks hstuck hk with hended | hblocks
    · exact hended
    · rcases blocks_cases hblocks with ⟨-, lines, hpc⟩ | ⟨-, b, rest, hpc⟩ | ⟨-, -, hmade⟩
      · exact absurd hpc (hs.no_wc hstuck hk lines)
      · exact absurd hpc (hs.no_ls hstuck hk b rest)
      · -- both children have ended, so that `wait` returns
        have hlen := hs.made k x hk 3 hmade
        have hcount : w.procs.tail.countP Proc.hasEnded = 2 := by
          have hall : ∀ y ∈ w.procs.tail, y.hasEnded = true := by
            intro y hy
            obtain ⟨j, hj⟩ := List.mem_iff_getElem?.mp hy
            rw [List.getElem?_tail] at hj
            exact hs.child_ended hstuck hj (Nat.succ_ne_zero j)
          rw [List.countP_eq_length.mpr hall, List.length_tail, hlen]
        have hnone := hstuck (.exec k .go) trivial
        simp only [ForkProg.system, ForkProg.next, hk, Option.bind_some, program, next,
          Option.map_eq_none_iff] at hnone
        cases hpc : x.pc with
        | wait1 => simp [go, hpc, hcount] at hnone
        | wait2 => simp [go, hpc, hcount] at hnone
        | exited => rw [hpc] at hblocks; cases hblocks
        | close0 => rw [hpc] at hblocks; cases hblocks
        | close1 => rw [hpc] at hblocks; cases hblocks
        | _ => rw [hpc] at hmade; cases hmade
  · exact hs.child_ended hstuck hk hzero

theorem next_ended (h : x.pc.ended = true) : next S g ps x a = none := by
  obtain ⟨pc, fds, filedes⟩ := x
  cases pc <;> first | (cases a <;> rfl) | cases h

/-- A process that has ended makes no step. -/
theorem stuck_of_ended (h : ∀ x ∈ w.procs, x.hasEnded = true) :
    (program S).system.Stuck Succeeds w := by
  rintro (⟨p, c⟩ | ⟨p, ok⟩) -
  · cases hx : w.procs[p]? with
    | none => simp only [ForkProg.system, ForkProg.next, hx, Option.bind_none]
    | some x =>
        have hended := h x (List.mem_of_getElem? hx)
        simp only [ForkProg.system, ForkProg.next, hx, Option.bind_some, program,
          next_ended hended, Option.map_none]
  · cases hx : w.procs[p]? with
    | none => simp only [ForkProg.system, ForkProg.next, hx, Option.bind_none]
    | some x =>
        have hended := h x (List.mem_of_getElem? hx)
        have hfork : x.fork = none := by
          obtain ⟨pc, fds, filedes⟩ := x
          cases pc <;> first | rfl | cases hended
        simp only [ForkProg.system, ForkProg.next, hx, Option.bind_some, program, hfork,
          Option.map_none]

/-! ## Runs without a failed call -/

/-- No process has failed or was killed. -/
def Clean (w : ForkWorld Shared Proc) : Prop := ∀ x ∈ w.procs, x.pc.role ≠ none

theorem Shape.role_eq (hs : Shape S w) (hc : Clean w) {k : ℕ} (hx : w.procs[k]? = some x) :
    x.pc.role = some k := by
  obtain ⟨r, hr⟩ := Option.ne_none_iff_exists'.mp (hc x (List.mem_of_getElem? hx))
  rw [hr, hs.role k x hx r hr]

/-- The places of the parent from which it has closed the read end. -/
theorem parent_cases (h : pc.role = some 0) :
    pc = .pipe ∨ pc.canRead = true ∨ pc.made = some 3 := by
  cases pc <;> first
    | exact Or.inl rfl
    | exact Or.inr (Or.inl rfl)
    | exact Or.inr (Or.inr rfl)
    | cases h

theorem reader_cases (h : pc.role = some 2) : pc.canRead = true ∨ ∃ lines, pc = .counted lines := by
  cases pc <;> first | exact Or.inl rfl | exact Or.inr ⟨_, rfl⟩ | cases h

/-- While `ls` runs, some process can read what it writes, so that it gets no SIGPIPE. -/
theorem Flow.has_reader (h : Flow S w) (hs : Shape S w) (hc : Clean w) {k : ℕ}
    (hx : w.procs[k]? = some x) {rest : List UInt8} (hpc : x.pc = .ls rest) :
    ∃ y ∈ w.procs, y.fds.Holds .readEnd := by
  have hreads : ∀ (j : ℕ) (y : Proc), w.procs[j]? = some y → y.pc.canRead = true →
      ∃ y ∈ w.procs, y.fds.Holds .readEnd := fun j y hy hcan =>
    ⟨y, List.mem_of_getElem? hy, (hs.each j y hy).holds_readEnd.mpr hcan⟩
  obtain ⟨p, hp⟩ : ∃ p, w.procs[0]? = some p :=
    ⟨_, List.getElem?_eq_some_iff.mpr ⟨hs.pos, rfl⟩⟩
  obtain ⟨hlt, -⟩ := List.getElem?_eq_some_iff.mp hx
  have hk := hs.role k x hx 1 (by rw [hpc]; rfl)
  rcases parent_cases (hs.role_eq hc hp) with hpipe | hcan | hmade
  · have hlen := hs.made 0 p hp 1 (by rw [hpipe]; rfl)
    omega
  · exact hreads 0 p hp hcan
  · have hlen := hs.made 0 p hp 3 hmade
    obtain ⟨z, hz⟩ : ∃ z, w.procs[2]? = some z :=
      ⟨_, List.getElem?_eq_some_iff.mpr ⟨by omega, rfl⟩⟩
    rcases reader_cases (hs.role_eq hc hz) with hcan | ⟨lines, hcounted⟩
    · exact hreads 2 z hz hcan
    · have hno := (h.counted 2 z hz lines hcounted).2 x (List.mem_of_getElem? hx)
      rw [hpc] at hno
      cases hno

theorem Move.role_of_succeeds {k : ℕ} (h : Move S g ps pc a g' pc') (ha : Succeeds (.exec k a)) :
    pc'.role = pc.role ∨ (∃ rest, pc = .ls rest) ∧ ¬ ∃ y ∈ ps, y.fds.Holds .readEnd := by
  cases h with
  | fail pc error h => exact False.elim ha
  | kill pc h => exact False.elim ha
  | sigpipe rest n hno => exact Or.inr ⟨⟨rest, rfl⟩, hno⟩
  | _ => exact Or.inl rfl

theorem Clean.step {b : ForkAct Call} (hc : Clean w) (h : Flow S w) (hs : Shape S w)
    (hb : Succeeds b) (hstep : (program S).Step w b v) : Clean v := by
  intro z hz
  obtain ⟨k, hk⟩ := List.mem_iff_getElem?.mp hz
  cases hstep with
  | exec p c x y g hx hexec =>
      rcases ForkProg.getElem?_set_cases hk with ⟨rfl, rfl⟩ | ⟨-, hk⟩
      · rcases (next_move (hs.each k x hx) hexec).1.role_of_succeeds hb with
          hsame | ⟨⟨rest, hpc⟩, hno⟩
        · rw [hsame]
          exact hc x (List.mem_of_getElem? hx)
        · exact absurd (h.has_reader hs hc hx hpc) hno
      · exact hc z (List.mem_of_getElem? hk)
  | forks p x f hx hf =>
      obtain ⟨n, -, -, hparent, hchild, -, -⟩ := fork_spec hf
      rcases ForkProg.getElem?_fork_cases hk with ⟨-, rfl⟩ | ⟨-, rfl⟩ | ⟨-, -, hk⟩
      · rw [hparent]
        exact nofun
      · rw [hchild]
        exact nofun
      · exact hc z (List.mem_of_getElem? hk)
  | fails p x f hx hf => cases hb

theorem Clean.init (h : (program S).system.Init w) : Clean w := by
  obtain ⟨x, ⟨-, rfl⟩, hprocs, -⟩ := h
  intro y hy
  rw [hprocs, List.mem_singleton] at hy
  rw [hy]
  exact nofun

theorem ended_cases {k : ℕ} (hended : pc.ended = true) (hrole : pc.role = some k) :
    k = 0 ∧ pc = .exited ∨ k = 1 ∧ pc = .lsExited ∨ k = 2 ∧ ∃ lines, pc = .counted lines := by
  cases pc with
  | exited => exact Or.inl ⟨(Option.some.inj hrole).symm, rfl⟩
  | lsExited => exact Or.inr (Or.inl ⟨(Option.some.inj hrole).symm, rfl⟩)
  | counted lines => exact Or.inr (Or.inr ⟨(Option.some.inj hrole).symm, lines, rfl⟩)
  | failed error => cases hrole
  | killed => cases hrole
  | _ => cases hended

/-- When all processes have ended and none of them failed, `wc` has counted all lines. -/
theorem Flow.final (h : Flow S w) (hs : Shape S w) (hc : Clean w)
    (hended : ∀ x ∈ w.procs, x.hasEnded = true) :
    w.procs.map Proc.pc = [.exited, .lsExited, .counted (S.output.count newline)] := by
  have hcases : ∀ (k : ℕ) (x : Proc), w.procs[k]? = some x →
      k = 0 ∧ x.pc = .exited ∨ k = 1 ∧ x.pc = .lsExited ∨
        k = 2 ∧ ∃ lines, x.pc = .counted lines := fun k x hx =>
    ended_cases (hended x (List.mem_of_getElem? hx)) (hs.role_eq hc hx)
  have hget : ∀ k, k < w.procs.length → ∃ x, w.procs[k]? = some x := fun k hk =>
    ⟨_, List.getElem?_eq_some_iff.mpr ⟨hk, rfl⟩⟩
  obtain ⟨p, hp⟩ := hget 0 hs.pos
  have hppc : p.pc = .exited := by rcases hcases 0 p hp with h | h | h <;> simp_all
  have hlen : w.procs.length = 3 := hs.made 0 p hp 3 (by rw [hppc]; rfl)
  obtain ⟨x, hx⟩ := hget 1 (by omega)
  obtain ⟨y, hy⟩ := hget 2 (by omega)
  have hxpc : x.pc = .lsExited := by rcases hcases 1 x hx with h | h | h <;> simp_all
  obtain ⟨lines, hypc⟩ : ∃ lines, y.pc = .counted lines := by
    rcases hcases 2 y hy with h | h | h <;> simp_all
  have hwritten : S.output = w.shared.written := by
    rw [h.rest 1 x hx [] (by rw [hxpc]; rfl), List.append_nil]
  have hlines := h.lines 2 y hy lines (by rw [hypc]; rfl)
  have hbuf := (h.counted 2 y hy lines hypc).1
  rw [Shared.Balanced, hbuf, List.count_nil, Nat.add_zero, ← hwritten] at hlines
  have hprocs : w.procs = [p, x, y] := by
    apply List.ext_getElem?
    intro k
    match k with
    | 0 => exact hp
    | 1 => exact hx
    | 2 => exact hy
    | k + 3 =>
        rw [List.getElem?_eq_none (by omega)]
        rfl
  rw [hprocs, hlines]
  simp only [List.map_cons, List.map_nil, hppc, hxpc, hypc]

/-! ## The program -/

theorem invariant (h₀ : (program S).system.Init w₀)
    (hrun : (program S).system.run w₀ as = some w) : Shape S w ∧ Flow S w :=
  TransSys.run_preserves (P := fun w => Shape S w ∧ Flow S w)
    (fun _ _ _ ⟨hs, h⟩ hnext =>
      ⟨hs.step (ForkProg.next_cases hnext), h.step hs (ForkProg.next_cases hnext)⟩)
    ⟨Shape.init h₀, Flow.init h₀⟩ hrun

theorem sampleRun_end : ∃ w, (program sampleSetting).system.run sampleStart sampleRun = some w ∧
    w.procs.map Proc.pc = [.exited, .lsExited, .counted 1] := by
  have hrun : ((program sampleSetting).system.run sampleStart sampleRun).map
      (fun w => w.procs.map Proc.pc) = some [.exited, .lsExited, .counted 1] := by decide +kernel
  exact Option.map_eq_some_iff.mp hrun

/-- **The count.** In every run, also one in which a process fails or is killed, `wc` reports its
count only after the last process that could write has closed the pipe, and the count is that of all
bytes that `ls` has written. -/
theorem count_of_written (h₀ : (program S).system.Init w₀)
    (hrun : (program S).system.run w₀ as = some w) (hx : x ∈ w.procs) {lines : ℕ}
    (hpc : x.pc = .counted lines) :
    lines = w.shared.written.count newline ∧ w.shared.written <+: S.output ∧
      ∀ y ∈ w.procs, ¬ y.fds.Holds .writeEnd := by
  obtain ⟨hs, hflow⟩ := invariant h₀ hrun
  obtain ⟨k, hk⟩ := List.mem_iff_getElem?.mp hx
  obtain ⟨hbuf, hno⟩ := hflow.counted k x hk lines hpc
  have hlines := hflow.lines k x hk lines (by rw [hpc]; rfl)
  rw [Shared.Balanced, hbuf, List.count_nil, Nat.add_zero] at hlines
  refine ⟨hlines.symm, hflow.written, fun y hy hholds => ?_⟩
  obtain ⟨j, hj⟩ := List.mem_iff_getElem?.mp hy
  rw [(hs.each j y hj).holds_writeEnd, hno y hy] at hholds
  cases hholds

theorem count_of_written_sampleRun :
    ∃ w, (program sampleSetting).system.run sampleStart sampleRun = some w ∧
      ∃ x ∈ w.procs, x.pc = .counted 1 ∧ 1 = w.shared.written.count newline := by
  obtain ⟨w, hw, hpcs⟩ := sampleRun_end
  have hmem : Pc.counted 1 ∈ w.procs.map Proc.pc := by rw [hpcs]; simp
  obtain ⟨x, hx, hpc⟩ := List.mem_map.mp hmem
  exact ⟨w, hw, x, hx, hpc, (count_of_written ⟨_, ⟨rfl, rfl⟩, rfl, rfl⟩ hw hx hpc).1⟩

/-- **The pipeline.** Every run is finite, and no process waits for another one forever: a run
cannot go on exactly if all processes have ended. If then no call failed and no signal came from
outside, `wc` has counted the lines that `ls` had to write. -/
theorem pipeline_ends (h₀ : (program S).system.Init w₀)
    (hrun : (program S).system.run w₀ as = some w) :
    as.length ≤ 2 * S.output.length + 17 ∧
      ((program S).system.Stuck Succeeds w ↔ ∀ x ∈ w.procs, x.hasEnded = true) ∧
      ((∀ a ∈ as, Succeeds a) → (∀ x ∈ w.procs, x.hasEnded = true) →
        w.procs.map Proc.pc = [.exited, .lsExited, .counted (S.output.count newline)]) := by
  obtain ⟨hs, hflow⟩ := invariant h₀ hrun
  refine ⟨?_, ⟨hs.all_ended, stuck_of_ended⟩, fun hok hended => ?_⟩
  · have hle := TransSys.run_length_le (I := Shape S) (C := fun _ _ => True) (m := S.variant)
      (fun _ _ _ hs hnext => hs.step (ForkProg.next_cases hnext))
      (fun _ _ _ hs _ hnext => variant_lt hs (ForkProg.next_cases hnext)) (Shape.init h₀)
      (TransSys.Meets.of_labels (fun _ _ _ => trivial) w₀) hrun
    have hstart : S.variant w₀ = 2 * S.output.length + 17 := by
      obtain ⟨y, ⟨hshared, rfl⟩, hprocs, -⟩ := h₀
      simp [Setting.variant, hprocs, hshared, Setting.rank]
    omega
  · have hclean := TransSys.run_preserves_of_meets
      (P := fun w => (Shape S w ∧ Flow S w) ∧ Clean w) (C := fun _ b => Succeeds b)
      (fun _ _ _ ⟨⟨hs, h⟩, hc⟩ hb hnext =>
        ⟨⟨hs.step (ForkProg.next_cases hnext), h.step hs (ForkProg.next_cases hnext)⟩,
          hc.step h hs hb (ForkProg.next_cases hnext)⟩)
      ⟨⟨Shape.init h₀, Flow.init h₀⟩, Clean.init h₀⟩
      (TransSys.Meets.of_labels (fun b hb _ => hok b hb) w₀) hrun
    exact hflow.final hs hclean.2 hended

theorem pipeline_ends_sampleRun :
    ∃ w, (program sampleSetting).system.run sampleStart sampleRun = some w ∧
      sampleRun.length = 2 * sampleSetting.output.length + 17 ∧
      w.procs.map Proc.pc = [.exited, .lsExited, .counted 1] := by
  obtain ⟨w, hrun, hpcs⟩ := sampleRun_end
  refine ⟨w, hrun, rfl, (pipeline_ends ⟨_, ⟨rfl, rfl⟩, rfl, rfl⟩ hrun).2.2 ?_ fun x hx => ?_⟩
  · intro a ha
    fin_cases ha <;> trivial
  · have hmem := List.mem_map_of_mem (f := Proc.pc) hx
    rw [hpcs] at hmem
    have hended : ∀ pc ∈ [Pc.exited, .lsExited, .counted 1], pc.ended = true := by decide
    exact hended x.pc hmem

end Tlpi.PipeLsWc
