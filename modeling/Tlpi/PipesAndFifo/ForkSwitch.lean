import Tlpi.MemoryMappings.AnonyMmap
import Tlpi.PipesAndFifo.PipeSync
import Tlpi.PipesAndFifo.SimplePipe

set_option autoImplicit false

/-! # Fork switches without a break

Three programs have the same `switch (fork())`: pipe_sync, simple_pipe and anony_mmap report a
failed `fork` under `case -1`, and then run on into `case 0`, the code of the child. For all three,
the original process stays out of that code exactly as long as no `fork` fails.
-/

namespace Tlpi

open ForkProg

/-- **Child code in children only.** For each of the three programs and every run of it (from `p₀`
to `p` in pipe_sync, from `q₀` to `q` in simple_pipe, from `r₀` to `r` in anony_mmap): the original
process has kept out of the child's branch, and ends with a failure if it could not fork, exactly if
no fork failed. -/
theorem child_code_only_iff
    {p₀ p : ForkWorld (List (List UInt8)) PipeSync.Proc} {as : List (ForkAct PipeSync.Call)}
    (hp₀ : PipeSync.program.system.Init p₀) (hp : PipeSync.program.system.run p₀ as = some p)
    {q₀ q : ForkWorld SimplePipe.Shared SimplePipe.Proc} {bs : List (ForkAct SimplePipe.Call)}
    (hq₀ : SimplePipe.program.system.Init q₀) (hq : SimplePipe.program.system.run q₀ bs = some q)
    {r₀ r : ForkWorld AnonyMmap.Shared AnonyMmap.Proc} {cs : List (ForkAct AnonyMmap.Call)}
    (hr₀ : AnonyMmap.program.system.Init r₀) (hr : AnonyMmap.program.system.run r₀ cs = some r) :
    (ChildOnly (fun x => x.pc.inChild) (fun x => x.pc.status) p ↔
      PipeSync.program.system.Meets ForkSucceeds p₀ as) ∧
    (ChildOnly (fun x => x.pc.inChild) (fun x => x.pc.status) q ↔
      SimplePipe.program.system.Meets ForkSucceeds q₀ bs) ∧
    (ChildOnly (fun x => x.pc.inChild) (fun x => x.pc.status) r ↔
      AnonyMmap.program.system.Meets ForkSucceeds r₀ cs) :=
  ⟨childOnly_iff PipeSync.fallsThrough hp₀ hp, childOnly_iff SimplePipe.fallsThrough hq₀ hq,
    childOnly_iff AnonyMmap.fallsThrough hr₀ hr⟩

/-- One argument for pipe_sync; the child comes to its end, or the original process in its place. -/
def pipeSyncRun : Bool → List (ForkAct PipeSync.Call)
  | true =>
      [.exec 0 .go, .exec 0 (.call true), .exec 0 .go, .fork 0 true, .exec 1 (.call true),
        .exec 1 .go, .exec 1 (.call true), .exec 1 .go]
  | false =>
      [.exec 0 .go, .exec 0 (.call true), .exec 0 .go, .fork 0 false, .exec 0 (.call true),
        .exec 0 .go, .exec 0 (.call true), .exec 0 .go]

def pipeSyncStart : ForkWorld (List (List UInt8)) PipeSync.Proc :=
  ⟨[str "0"], [⟨.start, 0, false, false, []⟩], []⟩

/-- One argument for simple_pipe; the child, or the original process, reads until end of file. -/
def simplePipeRun : Bool → List (ForkAct SimplePipe.Call)
  | true =>
      [.exec 0 .go, .exec 0 (.call true), .fork 0 true, .exec 0 (.call true),
        .exec 0 (.transfer (some 2)), .exec 0 (.call true), .exec 1 (.call true),
        .exec 1 (.transfer (some 2)), .exec 1 (.transfer (some 2)), .exec 1 (.transfer (some 0)),
        .exec 1 (.transfer (some 1)), .exec 1 (.call true), .exec 1 .go, .exec 0 (.call true),
        .exec 0 .go]
  | false =>
      [.exec 0 .go, .exec 0 (.call true), .fork 0 false, .exec 0 (.call true),
        .exec 0 (.transfer (some 0)), .exec 0 (.transfer (some 1)), .exec 0 (.call true),
        .exec 0 .go]

def simplePipeStart : ForkWorld SimplePipe.Shared SimplePipe.Proc :=
  ⟨⟨[str "hi"], [], []⟩, [⟨.start, false, false⟩], []⟩

/-- anony_mmap with `USE_MAP_ANON`; the child, or the original process, increments the integer. -/
def anonyMmapRun : Bool → List (ForkAct AnonyMmap.Call)
  | true =>
      [.exec 0 .go, .exec 0 (.call true), .exec 0 .go, .fork 0 true, .exec 1 .go, .exec 1 .go,
        .exec 1 (.call true), .exec 1 .go, .exec 0 (.call true), .exec 0 .go, .exec 0 (.call true),
        .exec 0 .go]
  | false =>
      [.exec 0 .go, .exec 0 (.call true), .exec 0 .go, .fork 0 false, .exec 0 .go, .exec 0 .go,
        .exec 0 (.call true), .exec 0 .go]

def anonyMmapStart : ForkWorld AnonyMmap.Shared AnonyMmap.Proc :=
  ⟨⟨true, 0, []⟩, [⟨.start, false, false⟩], []⟩

theorem pipeSyncStart_init : PipeSync.program.system.Init pipeSyncStart := ⟨_, rfl, rfl, rfl⟩

theorem simplePipeStart_init : SimplePipe.program.system.Init simplePipeStart :=
  ⟨_, ⟨rfl, rfl, rfl⟩, rfl, rfl⟩

theorem anonyMmapStart_init : AnonyMmap.program.system.Init anonyMmapStart :=
  ⟨_, ⟨rfl, rfl⟩, rfl, rfl⟩

/-- In the runs with a child, no fork fails. -/
theorem forks_succeed :
    PipeSync.program.system.Meets ForkSucceeds pipeSyncStart (pipeSyncRun true) ∧
      SimplePipe.program.system.Meets ForkSucceeds simplePipeStart (simplePipeRun true) ∧
      AnonyMmap.program.system.Meets ForkSucceeds anonyMmapStart (anonyMmapRun true) := by
  have hpipe : PipeSync.program.system.run pipeSyncStart (pipeSyncRun true) = some
      ⟨[str "0"], [⟨.forTest, 2, true, true, [.started]⟩,
        ⟨.exited true (some 0), 1, false, false, [.closing 1]⟩], []⟩ := by decide
  have hsimple : SimplePipe.program.system.run simplePipeStart (simplePipeRun true) = some
      ⟨⟨[str "hi"], [], str "hi\n"⟩, [⟨.exited false (some 0), false, false⟩,
        ⟨.exited true (some 0), false, false⟩], []⟩ := by decide
  have hmmap : AnonyMmap.program.system.run anonyMmapStart (anonyMmapRun true) = some
      ⟨⟨true, 2, [.childStarted 1, .inParent 2]⟩, [⟨.exited false (some 0), false, false⟩,
        ⟨.exited true (some 0), false, false⟩], []⟩ := by decide
  obtain ⟨hp, hq, hr⟩ := child_code_only_iff pipeSyncStart_init hpipe simplePipeStart_init hsimple
    anonyMmapStart_init hmmap
  refine ⟨hp.mp ?_, hq.mp ?_, hr.mp ?_⟩
  all_goals
    intro x hx
    obtain rfl := Option.some.inj hx
    exact ⟨rfl, fun hfailed => nomatch hfailed⟩

/-- When its fork fails, the original process of each program runs the code of the child to its end
and reports success. -/
theorem failed_fork_runs_child_code :
    (¬ ∀ w, PipeSync.program.system.Reachable w →
      ChildOnly (fun x => x.pc.inChild) (fun x => x.pc.status) w) ∧
    (¬ ∀ w, SimplePipe.program.system.Reachable w →
      ChildOnly (fun x => x.pc.inChild) (fun x => x.pc.status) w) ∧
    (¬ ∀ w, AnonyMmap.program.system.Reachable w →
      ChildOnly (fun x => x.pc.inChild) (fun x => x.pc.status) w) := by
  have hpipe : PipeSync.program.system.run pipeSyncStart (pipeSyncRun false) = some
      ⟨[str "0"], [⟨.exited true (some 0), 1, false, false, [.started, .closing 1]⟩], [0]⟩ := by
    decide
  have hsimple : SimplePipe.program.system.run simplePipeStart (simplePipeRun false) = some
      ⟨⟨[str "hi"], [], str "\n"⟩, [⟨.exited true (some 0), false, false⟩], [0]⟩ := by decide
  have hmmap : AnonyMmap.program.system.run anonyMmapStart (anonyMmapRun false) = some
      ⟨⟨true, 2, [.childStarted 1]⟩, [⟨.exited true (some 0), false, false⟩], [0]⟩ := by decide
  refine ⟨fun h => ?_, fun h => ?_, fun h => ?_⟩
  · obtain ⟨-, hstatus⟩ := h _ ⟨_, _, pipeSyncStart_init, hpipe⟩ _ rfl
    exact hstatus List.mem_cons_self 0 rfl rfl
  · obtain ⟨-, hstatus⟩ := h _ ⟨_, _, simplePipeStart_init, hsimple⟩ _ rfl
    exact hstatus List.mem_cons_self 0 rfl rfl
  · obtain ⟨-, hstatus⟩ := h _ ⟨_, _, anonyMmapStart_init, hmmap⟩ _ rfl
    exact hstatus List.mem_cons_self 0 rfl rfl

end Tlpi
