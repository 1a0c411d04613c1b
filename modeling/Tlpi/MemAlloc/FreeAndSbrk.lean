import Tlpi.Posix.Strtol

set_option autoImplicit false

/-! # Freeing a range of blocks (mem_alloc/free_and_sbrk.c)

`free_and_sbrk num-allocs block-size [step [min [max]]]` allocates blocks `0 .. num-allocs - 1`
and frees every `step`-th one of the range `min .. max` (counted from 1). The freeing loop is
`freeLoop`, with `int` arithmetic that notices overflow; `freeLoop_of_finished` and
`freeLoop_of_stride` say between them when it comes to an end and what it has freed by then.
-/

namespace Tlpi.FreeAndSbrk

def MAX_ALLOCS : ℤ := 1000000

def INT_MAX : ℤ := 2 ^ 31 - 1

def INT_MIN : ℤ := -2 ^ 31

/-- The variables set from the command line. -/
structure Args where
  numAllocs : ℤ
  blockSize : ℤ
  freeStep : ℤ
  freeMin : ℤ
  freeMax : ℤ
deriving DecidableEq, Repr

/-- `atoi(argv[i])`, or the default if there is no such argument. -/
def intArg (argv : List (List UInt8)) (i : ℕ) (default : ℤ) : ℤ :=
  match argv[i]? with
  | none => default
  | some s => (atoi s).toInt

/-- The command line, checked as `main` does; an error is the text printed before `exit(-1)`. -/
def parseArgs (argv : List (List UInt8)) : Except (List UInt8) Args :=
  if argv.length < 3 ∨ argv[1]? = some (str "--help") then
    .error (argv.headD [] ++ str " num-allocs block-size [step [min [max]]]\n")
  else
    let numAllocs := intArg argv 1 0
    if numAllocs > MAX_ALLOCS then .error (str "num-allocs > 1000000\n")
    else
      let blockSize := intArg argv 2 0
      let freeStep := intArg argv 3 1
      let freeMin := intArg argv 4 1
      let freeMax := intArg argv 5 numAllocs
      if freeMax > numAllocs then .error (str "free-max > num-allocs\n")
      else .ok ⟨numAllocs, blockSize, freeStep, freeMin, freeMax⟩

/-- Addition of two `int`s; `none` where C leaves the result undefined. -/
def addInt (a b : ℤ) : Option ℤ :=
  if INT_MIN ≤ a + b ∧ a + b ≤ INT_MAX then some (a + b) else none

/-- How a loop stands after some number of iterations. -/
inductive LoopEnd where
  | finished
  | overflow
  | running
deriving DecidableEq, Repr

/-- The indices `j` of the calls `free(ptr[j])`, in order. -/
structure FreeRun where
  freed : List ℤ
  ending : LoopEnd
deriving DecidableEq, Repr

/-- `for (; j < freeMax; j += freeStep) free(ptr[j]);`, at most `fuel` tests of the condition. -/
def freeLoop (freeMax freeStep : ℤ) : ℕ → ℤ → FreeRun
  | 0, _ => ⟨[], .running⟩
  | fuel + 1, j =>
      if j < freeMax then
        match addInt j freeStep with
        | none => ⟨[j], .overflow⟩
        | some j' =>
            let r := freeLoop freeMax freeStep fuel j'
            ⟨j :: r.freed, r.ending⟩
      else ⟨[], .finished⟩

/-- The whole loop, from `j = freeMin - 1` on. -/
def freeBlocks (args : Args) (fuel : ℕ) : FreeRun :=
  match addInt args.freeMin (-1) with
  | none => ⟨[], .overflow⟩
  | some j => freeLoop args.freeMax args.freeStep fuel j

/-- `for (j = 0; j < numAllocs; j++)`: `todo` calls of `malloc` are left, and `j` blocks are
allocated. `malloc j` says whether the call for block `j` succeeds; `none` is the exit if one
does not. -/
def allocLoop (malloc : ℕ → Bool) : ℕ → ℕ → Option ℕ
  | 0, j => some j
  | todo + 1, j => if malloc j then allocLoop malloc todo (j + 1) else none

/-- How `main` ends: with a text and `exit(-1)`, or in the freeing loop with so many blocks
allocated. -/
inductive Outcome where
  | exit (text : List UInt8)
  | freeing (allocated : ℕ) (run : FreeRun)
deriving DecidableEq, Repr

def freeAndSbrk (malloc : ℕ → Bool) (argv : List (List UInt8)) (fuel : ℕ) : Outcome :=
  match parseArgs argv with
  | .error text => .exit text
  | .ok args =>
      match allocLoop malloc args.numAllocs.toNat 0 with
      | none => .exit (str "malloc")
      | some allocated => .freeing allocated (freeBlocks args fuel)

/-! ## The checks and the allocations -/

theorem intArg_bounds (argv : List (List UInt8)) (i : ℕ) {default : ℤ}
    (h : INT_MIN ≤ default ∧ default ≤ INT_MAX) :
    INT_MIN ≤ intArg argv i default ∧ intArg argv i default ≤ INT_MAX := by
  unfold intArg
  split
  · exact h
  · rename_i s _
    have := toInt_bounds (atoi s)
    simp only [INT_MIN, INT_MAX]
    omega

/-- What the rest of the program knows of its arguments. -/
theorem parseArgs_ok {argv : List (List UInt8)} {args : Args} (h : parseArgs argv = .ok args) :
    args.freeMax ≤ args.numAllocs
    ∧ (INT_MIN ≤ args.freeMin ∧ args.freeMin ≤ INT_MAX)
    ∧ INT_MIN ≤ args.freeMax := by
  have hconst : INT_MIN ≤ 0 ∧ (0 : ℤ) ≤ INT_MAX ∧ INT_MIN ≤ 1 ∧ (1 : ℤ) ≤ INT_MAX := by decide
  have hnum := intArg_bounds argv 1 ⟨hconst.1, hconst.2.1⟩
  have hmin := intArg_bounds argv 4 ⟨hconst.2.2.1, hconst.2.2.2⟩
  have hmax := intArg_bounds argv 5 hnum
  unfold parseArgs at h
  split at h
  · cases h
  · dsimp only at h
    split at h
    · cases h
    · split at h
      · cases h
      · rename_i hle
        cases h
        exact ⟨not_lt.mp hle, hmin, hmax.1⟩

theorem allocLoop_eq_some {malloc : ℕ → Bool} {todo j n : ℕ}
    (h : allocLoop malloc todo j = some n) : n = j + todo := by
  induction todo generalizing j with
  | zero => exact (Option.some.inj h).symm
  | succ todo ih =>
      rw [allocLoop] at h
      split at h
      · have := ih h
        omega
      · cases h

/-- The freeing loop is only reached with all blocks allocated. -/
theorem freeAndSbrk_freeing {malloc : ℕ → Bool} {argv : List (List UInt8)} {fuel n : ℕ}
    {run : FreeRun} (h : freeAndSbrk malloc argv fuel = .freeing n run) :
    ∃ args, parseArgs argv = .ok args ∧ n = args.numAllocs.toNat ∧ run = freeBlocks args fuel := by
  unfold freeAndSbrk at h
  split at h
  · cases h
  · rename_i args hargs
    split at h
    · cases h
    · rename_i allocated halloc
      cases h
      have := allocLoop_eq_some halloc
      exact ⟨args, hargs, by omega, rfl⟩

/-! ## The freeing loop -/

/-- The indices `j, j + step, ...` of the first `m` iterations. -/
def stride (j step : ℤ) (m : ℕ) : List ℤ := (List.range m).map fun i : ℕ => j + i * step

theorem stride_succ (j step : ℤ) (m : ℕ) :
    stride j step (m + 1) = j :: stride (j + step) step m := by
  rw [stride, List.range_succ_eq_map, List.map_cons, List.map_map, stride]
  congr 1
  · simp
  · refine List.map_congr_left fun i _ => ?_
    simp only [Function.comp_apply]
    push_cast
    ring

theorem mem_stride {j step : ℤ} {m : ℕ} {x : ℤ} :
    x ∈ stride j step m ↔ ∃ i < m, x = j + i * step := by
  rw [stride, List.mem_map]
  constructor
  · rintro ⟨i, hi, rfl⟩
    exact ⟨i, List.mem_range.mp hi, rfl⟩
  · rintro ⟨i, hi, rfl⟩
    exact ⟨i, List.mem_range.mpr hi, rfl⟩

theorem stride_nodup {j step : ℤ} (h : 0 < step) (m : ℕ) : (stride j step m).Nodup := by
  refine List.Nodup.map ?_ List.nodup_range
  intro a b hab
  have hmul : (a : ℤ) * step = b * step := by
    simpa using hab
  exact_mod_cast mul_right_cancel₀ (ne_of_gt h) hmul

theorem addInt_eq_some {a b c : ℤ} (h : addInt a b = some c) : c = a + b ∧ c ≤ INT_MAX := by
  unfold addInt at h
  split at h
  · rename_i hrange
    cases h
    exact ⟨rfl, hrange.2⟩
  · cases h

/-- A loop that came to its end made some number `m` of iterations: the condition held before
each of them and fails after the last one. -/
theorem freeLoop_of_finished {freeMax freeStep : ℤ} {fuel : ℕ} {j : ℤ}
    (h : (freeLoop freeMax freeStep fuel j).ending = .finished) :
    ∃ m : ℕ, (freeLoop freeMax freeStep fuel j).freed = stride j freeStep m
      ∧ freeMax ≤ j + m * freeStep
      ∧ (∀ i < m, j + (i : ℤ) * freeStep < freeMax)
      ∧ (0 < m → j + m * freeStep ≤ INT_MAX) := by
  induction fuel generalizing j with
  | zero => cases h
  | succ fuel ih =>
      rw [freeLoop] at h ⊢
      split
      · rename_i hlt
        rw [if_pos hlt] at h
        cases hadd : addInt j freeStep with
        | none =>
            rw [hadd] at h
            cases h
        | some j' =>
            rw [hadd] at h
            obtain ⟨rfl, hmax⟩ := addInt_eq_some hadd
            obtain ⟨m, hfreed, hend, hbefore, hint⟩ := ih h
            refine ⟨m + 1, ?_, ?_, ?_, ?_⟩
            · rw [stride_succ, ← hfreed]
            · push_cast
              linarith
            · intro i hi
              cases i with
              | zero => simpa using hlt
              | succ i =>
                  have := hbefore i (by omega)
                  push_cast
                  linarith
            · intro _
              rcases Nat.eq_zero_or_pos m with rfl | hpos
              · simpa using hmax
              · have := hint hpos
                push_cast
                linarith
      · rename_i hge
        refine ⟨0, rfl, by simpa using hge, ?_, ?_⟩
        · intro i hi
          exact absurd hi (Nat.not_lt_zero i)
        · intro hpos
          exact absurd hpos (Nat.lt_irrefl 0)

/-- A loop with a positive step comes to its end after `m` iterations if no sum on the way
overflows. -/
theorem freeLoop_of_stride {freeMax freeStep : ℤ} (hstep : 0 < freeStep) {m : ℕ} {j : ℤ}
    (hj : 0 ≤ j) (hend : freeMax ≤ j + m * freeStep)
    (hbefore : ∀ i < m, j + (i : ℤ) * freeStep < freeMax) (hint : j + m * freeStep ≤ INT_MAX) :
    freeLoop freeMax freeStep (m + 1) j = ⟨stride j freeStep m, .finished⟩ := by
  induction m generalizing j with
  | zero =>
      have hge : ¬ j < freeMax := by simpa using hend
      rw [freeLoop, if_neg hge]
      rfl
  | succ m ih =>
      have hlt : j < freeMax := by simpa using hbefore 0 (Nat.succ_pos m)
      push_cast at hend hint
      have hnonneg : 0 ≤ (m : ℤ) * freeStep := by positivity
      have hadd : addInt j freeStep = some (j + freeStep) := by
        rw [addInt, if_pos]
        simp only [INT_MIN, INT_MAX] at hint ⊢
        constructor <;> linarith
      have hrest := @ih (j + freeStep) (by linarith) (by linarith) (by
        intro i hi
        have := hbefore (i + 1) (by omega)
        push_cast at this
        linarith) (by linarith)
      rw [freeLoop, if_pos hlt, hadd]
      simp only [hrest, stride_succ]

/-- The number of iterations for a range and a positive step. -/
theorem iterations_eq {freeMin freeMax freeStep : ℤ} {m : ℕ} (hstep : 0 < freeStep) (hm : 0 < m)
    (hend : freeMax ≤ freeMin - 1 + m * freeStep)
    (hbefore : ∀ i < m, freeMin - 1 + (i : ℤ) * freeStep < freeMax) :
    (m : ℤ) = (freeMax - freeMin) / freeStep + 1 := by
  have hlast := hbefore (m - 1) (by omega)
  have hcast : ((m - 1 : ℕ) : ℤ) = m - 1 := by omega
  rw [hcast] at hlast
  have hquot : (freeMax - freeMin) / freeStep = (m : ℤ) - 1 := by
    apply le_antisymm
    · have : (freeMax - freeMin) / freeStep < m := by
        rw [Int.ediv_lt_iff_lt_mul hstep]
        linarith
      omega
    · rw [Int.le_ediv_iff_mul_le hstep]
      linarith
  omega

/-- The loop comes to an end, every index is that of an allocated block, and no index occurs
twice. An overflow of `j` is an end of its own (`LoopEnd.overflow`). -/
def FreesSafely (args : Args) : Prop :=
  ∃ fuel, (freeBlocks args fuel).ending = .finished
    ∧ (∀ j ∈ (freeBlocks args fuel).freed, 0 ≤ j ∧ j < args.numAllocs)
    ∧ (freeBlocks args fuel).freed.Nodup

/-- The range is empty, or it starts at a block, the step is positive, and the value of `j` after
the last block of the range is an `int`. -/
def GoodRange (args : Args) : Prop :=
  args.freeMax < args.freeMin
  ∨ 1 ≤ args.freeMin ∧ 0 < args.freeStep
    ∧ args.freeMin - 1 + ((args.freeMax - args.freeMin) / args.freeStep + 1) * args.freeStep
        ≤ INT_MAX

theorem addInt_pred {a : ℤ} (hmin : INT_MIN < a) (hmax : a ≤ INT_MAX) :
    addInt a (-1) = some (a - 1) := by
  rw [addInt, if_pos ⟨by linarith, by linarith⟩, sub_eq_add_neg]

/-- A range that is empty is not entered. -/
theorem freesSafely_of_empty {args : Args} (hmin : INT_MIN < args.freeMin)
    (hmax : args.freeMin ≤ INT_MAX) (hempty : args.freeMax < args.freeMin) :
    FreesSafely args := by
  have hrun : freeBlocks args 1 = ⟨[], .finished⟩ := by
    rw [freeBlocks, addInt_pred hmin hmax]
    simp only [freeLoop]
    rw [if_neg (by omega)]
  refine ⟨1, ?_⟩
  rw [hrun]
  simp

/-- A range of blocks, walked upwards. -/
theorem freesSafely_of_stride {args : Args} (hle : args.freeMax ≤ args.numAllocs)
    (hmax : args.freeMin ≤ INT_MAX) (hne : args.freeMin ≤ args.freeMax) (hmin : 1 ≤ args.freeMin)
    (hstep : 0 < args.freeStep)
    (hint : args.freeMin - 1 + ((args.freeMax - args.freeMin) / args.freeStep + 1) * args.freeStep
      ≤ INT_MAX) : FreesSafely args := by
  have hquot : 0 ≤ (args.freeMax - args.freeMin) / args.freeStep :=
    Int.ediv_nonneg (by omega) (by omega)
  obtain ⟨q, hq⟩ := Int.eq_ofNat_of_zero_le hquot
  rw [hq] at hint
  -- the last iteration is the `q`-th: `q * step` still fits into the range, one more step does not
  have hlast : (q : ℤ) * args.freeStep ≤ args.freeMax - args.freeMin := by
    rw [← Int.le_ediv_iff_mul_le hstep, hq]
  have hover : args.freeMax - args.freeMin < ((q : ℤ) + 1) * args.freeStep := by
    rw [← Int.ediv_lt_iff_lt_mul hstep, hq]
    exact Int.lt_succ _
  have hbefore : ∀ i < q + 1, args.freeMin - 1 + (i : ℤ) * args.freeStep < args.freeMax := by
    intro i hi
    have hmul : (i : ℤ) * args.freeStep ≤ q * args.freeStep :=
      mul_le_mul_of_nonneg_right (by omega) (by omega)
    linarith
  have hrun : freeBlocks args (q + 1 + 1)
      = ⟨stride (args.freeMin - 1) args.freeStep (q + 1), .finished⟩ := by
    have hlow : INT_MIN < args.freeMin := lt_of_lt_of_le (by decide) hmin
    rw [freeBlocks, addInt_pred hlow hmax]
    exact freeLoop_of_stride hstep (by omega) (by push_cast; linarith) hbefore
      (by push_cast; linarith)
  refine ⟨q + 1 + 1, ?_⟩
  rw [hrun]
  refine ⟨rfl, ?_, stride_nodup hstep _⟩
  intro j hj
  obtain ⟨i, hi, rfl⟩ := mem_stride.mp hj
  have hnonneg : 0 ≤ (i : ℤ) * args.freeStep := by positivity
  have := hbefore i hi
  constructor <;> linarith

/-- A loop that ends and keeps to the blocks walked a good range. -/
theorem goodRange_of_freesSafely {args : Args} (h : FreesSafely args) : GoodRange args := by
  obtain ⟨fuel, hfin, hrange, -⟩ := h
  unfold freeBlocks at hfin hrange
  cases hadd : addInt args.freeMin (-1) with
  | none =>
      rw [hadd] at hfin
      cases hfin
  | some j =>
      rw [hadd] at hfin hrange
      obtain ⟨rfl, -⟩ := addInt_eq_some hadd
      rw [← sub_eq_add_neg] at hfin hrange
      obtain ⟨m, hfreed, hend, hbefore, hint⟩ := freeLoop_of_finished hfin
      rcases Nat.eq_zero_or_pos m with rfl | hm
      · left
        simp only [Nat.cast_zero, zero_mul, add_zero] at hend
        omega
      · right
        have hfirst := hbefore 0 hm
        simp only [Nat.cast_zero, zero_mul, add_zero] at hfirst
        -- with a step of 0 or less the condition would never become false
        have hstep : 0 < args.freeStep := by
          by_contra hneg
          have : (m : ℤ) * args.freeStep ≤ 0 :=
            mul_nonpos_of_nonneg_of_nonpos (by omega) (by omega)
          linarith
        have hzero : 0 ≤ args.freeMin - 1 := by
          refine (hrange _ ?_).1
          rw [hfreed, mem_stride]
          exact ⟨0, hm, by simp⟩
        have hcount := iterations_eq hstep hm hend hbefore
        have := hint hm
        rw [hcount] at this
        exact ⟨by linarith, hstep, this⟩

/-- **Which ranges are freed safely.** For arguments that pass the checks of `main`, the freeing
loop ends, stays within the allocated blocks and frees none of them twice exactly if the range is
a good one: `main` compares `max` with the number of blocks, and neither `min` nor `step` with
anything. -/
theorem freesSafely_iff {argv : List (List UInt8)} {args : Args}
    (h : parseArgs argv = .ok args) : FreesSafely args ↔ GoodRange args := by
  obtain ⟨hle, ⟨hmin, hmax⟩, hfree⟩ := parseArgs_ok h
  constructor
  · exact goodRange_of_freesSafely
  · rintro (hempty | ⟨hone, hstep, hint⟩)
    · exact freesSafely_of_empty (by omega) hmax hempty
    · rcases lt_or_ge args.freeMax args.freeMin with hempty | hne
      · exact freesSafely_of_empty (by omega) hmax hempty
      · exact freesSafely_of_stride hle hmax hne hone hstep hint

/-- `free_and_sbrk 10 100 3 2 9`. -/
def everyThird : List (List UInt8) :=
  [str "free_and_sbrk", str "10", str "100", str "3", str "2", str "9"]

theorem freesSafely_everyThird : FreesSafely ⟨10, 100, 3, 2, 9⟩ :=
  (freesSafely_iff (show parseArgs everyThird = .ok ⟨10, 100, 3, 2, 9⟩ by decide)).mpr
    (Or.inr (by decide))

/-- A range from block 0 is accepted and frees `ptr[-1]`; a step of 0 is accepted and frees one
block again and again. -/
theorem freesSafely_fails :
    (parseArgs [str "free_and_sbrk", str "10", str "100", str "1", str "0"]
        = .ok ⟨10, 100, 1, 0, 10⟩ ∧ ¬ FreesSafely ⟨10, 100, 1, 0, 10⟩)
    ∧ parseArgs [str "free_and_sbrk", str "10", str "100", str "0"] = .ok ⟨10, 100, 0, 1, 10⟩
    ∧ ¬ FreesSafely ⟨10, 100, 0, 1, 10⟩ := by
  refine ⟨⟨by decide, ?_⟩, by decide, ?_⟩
  · intro h
    have hbad : ¬ GoodRange ⟨10, 100, 1, 0, 10⟩ := by simp [GoodRange]
    exact hbad (goodRange_of_freesSafely h)
  · intro h
    have hbad : ¬ GoodRange ⟨10, 100, 0, 1, 10⟩ := by simp [GoodRange]
    exact hbad (goodRange_of_freesSafely h)

end Tlpi.FreeAndSbrk
