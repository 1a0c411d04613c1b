import Mathlib.Tactic

set_option autoImplicit false

/-! # Terminal modes (terminals/tty_functions.c)

`ttySetCbreak` and `ttySetRaw` read the settings of a terminal, save them if they are asked to, and
set changed ones. A program calls them in any order, some calls fail, and at the end it sets the
settings it has saved.
-/

namespace Tlpi.TtyFunctions

def IGNBRK : BitVec 32 := 0x1
def BRKINT : BitVec 32 := 0x2
def PARMRK : BitVec 32 := 0x8
def INPCK : BitVec 32 := 0x10
def ISTRIP : BitVec 32 := 0x20
def INLCR : BitVec 32 := 0x40
def IGNCR : BitVec 32 := 0x80
def ICRNL : BitVec 32 := 0x100
def IXON : BitVec 32 := 0x400

def OPOST : BitVec 32 := 0x1

def ISIG : BitVec 32 := 0x1
def ICANON : BitVec 32 := 0x2
def ECHO : BitVec 32 := 0x8
def IEXTEN : BitVec 32 := 0x8000

def VTIME : Fin 32 := 5
def VMIN : Fin 32 := 6

structure Termios where
  c_iflag : BitVec 32
  c_oflag : BitVec 32
  c_cflag : BitVec 32
  c_lflag : BitVec 32
  c_cc : Fin 32 → UInt8
deriving DecidableEq

/-- `c_cc[VMIN] = 1` and `c_cc[VTIME] = 0`. -/
def charAtATime (cc : Fin 32 → UInt8) : Fin 32 → UInt8 :=
  Function.update (Function.update cc VMIN 1) VTIME 0

/-- The bits that `ttySetCbreak` clears and sets. -/
def cbreakOff : BitVec 32 := ICANON ||| ECHO

def Termios.cbreak (t : Termios) : Termios :=
  { t with
    c_lflag := t.c_lflag &&& ~~~cbreakOff ||| ISIG
    c_iflag := t.c_iflag &&& ~~~ICRNL
    c_cc := charAtATime t.c_cc }

/-- The bits that `ttySetRaw` clears. -/
def rawLocal : BitVec 32 := ICANON ||| ISIG ||| IEXTEN ||| ECHO

def rawInput : BitVec 32 :=
  BRKINT ||| ICRNL ||| IGNBRK ||| IGNCR ||| INLCR ||| INPCK ||| ISTRIP ||| IXON ||| PARMRK

def Termios.raw (t : Termios) : Termios :=
  { t with
    c_lflag := t.c_lflag &&& ~~~rawLocal
    c_iflag := t.c_iflag &&& ~~~rawInput
    c_oflag := t.c_oflag &&& ~~~OPOST
    c_cc := charAtATime t.c_cc }

/-- The terminal, and the variable `prevTermios` points to. -/
structure State where
  tty : Termios
  prev : Termios

/-- Both functions; `save` says whether `prevTermios` is not `NULL`, `getOk` and `setOk` whether
`tcgetattr` reads and `tcsetattr` sets all of the settings. -/
def ttySet (change : Termios → Termios) (save getOk setOk : Bool) (s : State) : ℤ × State :=
  if getOk then
    let s := if save then { s with prev := s.tty } else s
    if setOk then (0, { s with tty := change s.tty }) else (-1, s)
  else (-1, s)

def ttySetCbreak (save getOk setOk : Bool) (s : State) : ℤ × State :=
  ttySet Termios.cbreak save getOk setOk s

def ttySetRaw (save getOk setOk : Bool) (s : State) : ℤ × State :=
  ttySet Termios.raw save getOk setOk s

inductive Mode where
  | cbreak
  | raw
deriving DecidableEq, Repr

structure Call where
  mode : Mode
  save : Bool
  getOk : Bool
  setOk : Bool
deriving DecidableEq, Repr

def Call.run (c : Call) (s : State) : ℤ × State :=
  match c.mode with
  | .cbreak => ttySetCbreak c.save c.getOk c.setOk s
  | .raw => ttySetRaw c.save c.getOk c.setOk s

/-- The calls that return 0. -/
def Call.ok (c : Call) : Bool := c.getOk && c.setOk

def runCalls (s : State) (cs : List Call) : State := cs.foldl (fun s c => (c.run s).2) s

/-! ## How the two modes compose -/

/-- The modes set by the successful calls, the last one first. -/
def modes (cs : List Call) : List Mode := ((cs.filter Call.ok).map Call.mode).reverse

/-- The settings that these modes make of `t`. -/
def settings (t : Termios) : List Mode → Termios
  | [] => t
  | .raw :: _ => t.raw
  | .cbreak :: before => if .raw ∈ before then t.raw.cbreak else t.cbreak

/-- Clearing `m` forgets what was done to the bits of `m` before. -/
theorem clear_set_clear (x : BitVec 32) {a b m : BitVec 32} (ha : a &&& ~~~m = 0#32)
    (hb : b &&& ~~~m = 0#32) : (x &&& ~~~a ||| b) &&& ~~~m = x &&& ~~~m := by
  ext i hi
  have hai : (a &&& ~~~m)[i] = false := by rw [getElem_congr_coll ha, BitVec.getElem_zero]
  have hbi : (b &&& ~~~m)[i] = false := by rw [getElem_congr_coll hb, BitVec.getElem_zero]
  simp only [BitVec.getElem_and, BitVec.getElem_or, BitVec.getElem_not] at hai hbi ⊢
  cases hm : m[i] with
  | true => simp
  | false =>
      rw [hm] at hai hbi
      simp only [Bool.not_false, Bool.and_true] at hai hbi
      simp [hai, hbi]

theorem clear_clear (x : BitVec 32) {a m : BitVec 32} (ha : a &&& ~~~m = 0#32) :
    x &&& ~~~a &&& ~~~m = x &&& ~~~m := by
  have hzero := clear_set_clear x (b := 0#32) ha (by simp)
  rwa [BitVec.or_zero] at hzero

/-- Clearing `m` first makes no difference exactly if no bit of `m` was set that is not cleared or
set afterwards. -/
theorem clear_first_iff (x a b m : BitVec 32) :
    x &&& ~~~m &&& ~~~a ||| b = x &&& ~~~a ||| b ↔ x &&& (m &&& ~~~a &&& ~~~b) = 0#32 := by
  have hbool : ∀ p q r t : Bool,
      (p && !t && !q || r) = (p && !q || r) ↔ (p && (t && !q && !r)) = false := by decide
  have hbits : ∀ y z : BitVec 32, y = z ↔ ∀ i (hi : i < 32), y[i] = z[i] := fun y z =>
    ⟨fun h i hi => by rw [h], fun h => BitVec.eq_of_getElem_eq h⟩
  rw [hbits, hbits]
  refine forall₂_congr fun i hi => ?_
  simp only [BitVec.getElem_or, BitVec.getElem_and, BitVec.getElem_not, BitVec.getElem_zero]
  exact hbool x[i] a[i] b[i] m[i]

theorem charAtATime_charAtATime (cc : Fin 32 → UInt8) :
    charAtATime (charAtATime cc) = charAtATime cc := by
  funext i
  by_cases htime : i = VTIME
  · simp [charAtATime, htime]
  · by_cases hmin : i = VMIN
    · simp [charAtATime, hmin, Function.update_of_ne (show VMIN ≠ VTIME by decide)]
    · simp [charAtATime, Function.update_of_ne htime, Function.update_of_ne hmin]

/-- Raw mode does not depend on whether the terminal was in cbreak mode. -/
theorem raw_cbreak (t : Termios) : t.cbreak.raw = t.raw := by
  simp only [Termios.raw, Termios.cbreak, charAtATime_charAtATime]
  rw [clear_set_clear t.c_lflag (by decide) (by decide), clear_clear t.c_iflag (by decide)]

theorem raw_raw (t : Termios) : t.raw.raw = t.raw := by
  simp only [Termios.raw, charAtATime_charAtATime]
  rw [clear_clear t.c_lflag (by decide), clear_clear t.c_iflag (by decide),
    clear_clear t.c_oflag (by decide)]

theorem cbreak_cbreak (t : Termios) : t.cbreak.cbreak = t.cbreak := by
  simp only [Termios.cbreak, charAtATime_charAtATime]
  rw [clear_clear t.c_iflag (by decide)]
  congr 1
  have hbool : ∀ p q r : Bool, (((p && !q || r) && !q) || r) = (p && !q || r) := by decide
  ext i hi
  simp only [BitVec.getElem_and, BitVec.getElem_or, BitVec.getElem_not]
  exact hbool t.c_lflag[i] cbreakOff[i] ISIG[i]

/-- When cbreak mode after raw mode is cbreak mode. -/
theorem cbreak_raw_iff (t : Termios) :
    t.raw.cbreak = t.cbreak ↔
      t.c_lflag &&& IEXTEN = 0#32 ∧ t.c_iflag &&& (rawInput &&& ~~~ICRNL) = 0#32 ∧
        t.c_oflag &&& OPOST = 0#32 := by
  have hlocal : rawLocal &&& ~~~cbreakOff &&& ~~~ISIG = IEXTEN := by decide
  have hl := clear_first_iff t.c_lflag cbreakOff ISIG rawLocal
  have hi := clear_first_iff t.c_iflag ICRNL 0#32 rawInput
  have ho := clear_first_iff t.c_oflag 0#32 0#32 OPOST
  rw [hlocal] at hl
  simp only [BitVec.or_zero, BitVec.not_zero, BitVec.and_allOnes] at hi ho
  rw [← hl, ← hi, ← ho]
  constructor
  · intro h
    exact ⟨congrArg Termios.c_lflag h, congrArg Termios.c_iflag h, congrArg Termios.c_oflag h⟩
  · rintro ⟨hl, hi, ho⟩
    simp only [Termios.raw, Termios.cbreak, charAtATime_charAtATime, Termios.mk.injEq, and_true,
      true_and]
    exact ⟨hi, ho, hl⟩

/-! ## Sequences of calls -/

/-- A call sets its mode, or fails and leaves the terminal as it is. -/
theorem run_tty (c : Call) (s : State) :
    (c.run s).2.tty = if c.ok then settings s.tty [c.mode] else s.tty := by
  obtain ⟨mode, save, getOk, setOk⟩ := c
  cases mode <;> cases save <;> cases getOk <;> cases setOk <;> rfl

theorem settings_cons (t : Termios) (m : Mode) (ms : List Mode) :
    settings (settings t ms) [m] = settings t (m :: ms) := by
  cases ms with
  | nil => cases m <;> rfl
  | cons n ms =>
      cases m with
      | raw =>
          cases n with
          | raw => exact raw_raw t
          | cbreak =>
              simp only [settings]
              split
              · rw [raw_cbreak, raw_raw]
              · exact raw_cbreak t
      | cbreak =>
          cases n with
          | raw => simp [settings]
          | cbreak =>
              by_cases hraw : .raw ∈ ms
              · simp [settings, hraw, cbreak_cbreak]
              · simp [settings, hraw, cbreak_cbreak]

theorem modes_concat (cs : List Call) (c : Call) :
    modes (cs ++ [c]) = if c.ok then c.mode :: modes cs else modes cs := by
  cases hok : c.ok <;> simp [modes, List.filter_append, hok]

theorem run_prev (c : Call) (s : State) (h : c.save = false) : (c.run s).2.prev = s.prev := by
  obtain ⟨mode, save, getOk, setOk⟩ := c
  cases h
  cases mode <;> cases getOk <;> cases setOk <;> rfl

/-- **The modes compose.** After any sequence of calls, the terminal is as the last successful call
and the question whether raw mode was set before it determine; failed calls change nothing. A call
that saves the settings saves what it finds, so that they can be restored after any further calls.
And cbreak mode after raw mode differs from cbreak mode unless the bits that only `ttySetRaw` clears
were clear from the start. -/
theorem modes_after_calls (s : State) (cs : List Call) :
    (runCalls s cs).tty = settings s.tty (modes cs) ∧
    (∀ c ds, c.save = true → c.getOk = true → (∀ d ∈ ds, d.save = false) →
      (runCalls s (cs ++ c :: ds)).prev = (runCalls s cs).tty) ∧
    (s.tty.raw.cbreak = s.tty.cbreak ↔ s.tty.c_lflag &&& IEXTEN = 0#32 ∧
      s.tty.c_iflag &&& (rawInput &&& ~~~ICRNL) = 0#32 ∧ s.tty.c_oflag &&& OPOST = 0#32) := by
  refine ⟨?_, fun c ds hsave hget hds => ?_, cbreak_raw_iff s.tty⟩
  · induction cs using List.reverseRecOn with
    | nil => rfl
    | append_singleton cs c ih =>
        rw [runCalls, List.foldl_append, modes_concat]
        show (c.run (runCalls s cs)).2.tty = _
        rw [run_tty, ih]
        split
        · exact settings_cons s.tty c.mode (modes cs)
        · rfl
  · induction ds using List.reverseRecOn with
    | nil =>
        rw [runCalls, List.foldl_append]
        show (c.run (runCalls s cs)).2.prev = _
        obtain ⟨mode, save, getOk, setOk⟩ := c
        cases hsave
        cases hget
        cases mode <;> cases setOk <;> rfl
    | append_singleton ds d ih =>
        have hd : d.save = false := hds d (by simp)
        rw [← List.cons_append, ← List.append_assoc, runCalls, List.foldl_append]
        show (d.run (runCalls s (cs ++ c :: ds))).2.prev = _
        rw [run_prev d _ hd]
        exact ih fun e he => hds e (by simp [he])

end Tlpi.TtyFunctions
