import Tlpi.Lib.Lines
import Tlpi.Posix.Base

set_option autoImplicit false

/-! # `readLine` (sockets/read_line.c)

`readLine(fd, buffer, n)` reads one byte at a time up to and including a newline, stores the
first `n - 1` bytes of the line and a NUL, and drops the rest of the line. The loop is
`readLoop`. What a call does depends on the stream only through `scanLine`, which cuts the
first line off the stream without looking at the buffer (`readLoop_eq_lineResult`); the
statements about calls are read off from that equation.
-/

namespace Tlpi

open Lines

/-! ## The function -/

/-- What a call of `readLine` leaves behind: its return value, `errno` when that is `-1`, the
buffer (`none` for the null pointer), and the stream from the byte after the last one read. -/
structure LineResult where
  ret : ℤ
  errno : Option Errno
  buffer : Option Mem
  rest : Stream

/-- After the loop: `*buf = '\0'; return totRead`. The pointer `buf` is always `totRead` bytes
into the buffer. -/
def terminate (buf : Mem) (totRead : ℕ) (rest : Stream) : LineResult where
  ret := totRead
  errno := none
  buffer := some (Function.update buf totRead 0)
  rest := rest

/-- The `for (;;)` loop of `readLine`. -/
def readLoop (n : ℕ) (buf : Mem) (totRead : ℕ) : Stream → LineResult
  | [] =>
      -- `numRead == 0`
      if totRead = 0 then ⟨0, none, some buf, []⟩ else terminate buf totRead []
  | .err e :: fd =>
      if e = .EINTR then readLoop n buf totRead fd else ⟨-1, some e, some buf, fd⟩
  | .byte ch :: fd =>
      if totRead < n - 1 then
        if ch = newline then terminate (Function.update buf totRead ch) (totRead + 1) fd
        else readLoop n (Function.update buf totRead ch) (totRead + 1) fd
      else
        if ch = newline then terminate buf totRead fd else readLoop n buf totRead fd

/-- `readLine(fd, buffer, n)`. Sizes are natural numbers: a buffer of `n` bytes exists, so `n` is
below `SSIZE_MAX` and no count in the function wraps. -/
def readLine (fd : Stream) (buffer : Option Mem) (n : ℕ) : LineResult :=
  match buffer with
  | none => ⟨-1, some .EINVAL, none, fd⟩
  | some buf => if n = 0 then ⟨-1, some .EINVAL, some buf, fd⟩ else readLoop n buf 0 fd

/-! ## The first line of a stream -/

/-- How the reading of a line ended. -/
inductive LineEnd where
  | newline
  | eof
  | err (e : Errno)
deriving DecidableEq, Repr

/-- The first line of a stream, how it ended, and what follows it. -/
structure Scan where
  line : List UInt8
  ending : LineEnd
  rest : Stream
deriving DecidableEq, Repr

def scanLine : Stream → Scan
  | [] => ⟨[], .eof, []⟩
  | .err e :: fd => if e = .EINTR then scanLine fd else ⟨[], .err e, fd⟩
  | .byte ch :: fd =>
      if ch = newline then ⟨[ch], .newline, fd⟩
      else { scanLine fd with line := ch :: (scanLine fd).line }

/-- The result of a call that finds the scanned line with `totRead` bytes already stored. -/
def lineResult (n : ℕ) (buf : Mem) (totRead : ℕ) (sc : Scan) : LineResult :=
  let kept := sc.line.take (n - 1 - totRead)
  let mem := store buf totRead kept
  match sc.ending with
  | .err e => ⟨-1, some e, some mem, sc.rest⟩
  | .newline => terminate mem (totRead + kept.length) sc.rest
  | .eof =>
      if totRead + kept.length = 0 then ⟨0, none, some mem, sc.rest⟩
      else terminate mem (totRead + kept.length) sc.rest

/-- **One call, in terms of the scanned line.** Induction over the stream: a byte is stored while
there is room and dropped afterwards, and the two cases keep `totRead ≤ n - 1`. -/
theorem readLoop_eq_lineResult (n : ℕ) (fd : Stream) :
    ∀ (buf : Mem) (totRead : ℕ), totRead ≤ n - 1 →
      readLoop n buf totRead fd = lineResult n buf totRead (scanLine fd) := by
  induction fd with
  | nil =>
      intro buf totRead _
      by_cases h0 : totRead = 0 <;> simp [readLoop, scanLine, lineResult, store, h0]
  | cons r fd ih =>
      intro buf totRead htot
      cases r with
      | err e =>
          by_cases he : e = .EINTR
          · rw [readLoop, scanLine, if_pos he, if_pos he, ih buf totRead htot]
          · rw [readLoop, scanLine, if_neg he, if_neg he]
            simp [lineResult, store]
      | byte ch =>
          rw [readLoop, scanLine]
          by_cases hlt : totRead < n - 1
          · -- the byte is stored, so one more byte of the line is kept
            have hsub : n - 1 - totRead = (n - 1 - (totRead + 1)) + 1 := by omega
            rw [if_pos hlt]
            split
            · simp [lineResult, hsub, store]
            · rw [ih _ _ (by omega)]
              cases he : (scanLine fd).ending <;>
                simp [lineResult, hsub, store, he, Nat.add_assoc, Nat.add_comm 1]
          · -- the buffer is full: nothing of the line is kept from here on
            have hsub : n - 1 - totRead = 0 := by omega
            rw [if_neg hlt]
            split
            · simp [lineResult, hsub, store]
            · rw [ih _ _ htot]
              cases he : (scanLine fd).ending <;> simp [lineResult, hsub, store, he]

theorem readLine_eq (fd : Stream) (buf : Mem) {n : ℕ} (hn : 0 < n) :
    readLine fd (some buf) n = lineResult n buf 0 (scanLine fd) := by
  rw [readLine, if_neg (by omega), readLoop_eq_lineResult n fd buf 0 (by omega)]

@[simp] theorem lineResult_rest (n : ℕ) (buf : Mem) (totRead : ℕ) (sc : Scan) :
    (lineResult n buf totRead sc).rest = sc.rest := by
  unfold lineResult terminate
  cases sc.ending with
  | newline => rfl
  | err e => rfl
  | eof => dsimp only; split <;> rfl

theorem lineResult_ret_pos {n : ℕ} {buf : Mem} {sc : Scan}
    (h : 0 < (lineResult n buf 0 sc).ret) : sc.line ≠ [] := by
  intro hnil
  unfold lineResult terminate at h
  cases he : sc.ending <;> simp [he, hnil] at h

/-- The returned count does not depend on what was in the buffer. -/
theorem lineResult_ret_congr (n : ℕ) (buf buf' : Mem) (sc : Scan) :
    (lineResult n buf 0 sc).ret = (lineResult n buf' 0 sc).ret := by
  unfold lineResult terminate
  cases sc.ending with
  | newline => rfl
  | err e => rfl
  | eof => dsimp only; split <;> rfl

theorem scanLine_rest_suffix (fd : Stream) : (scanLine fd).rest <:+ fd := by
  induction fd with
  | nil => exact List.suffix_refl []
  | cons r fd ih =>
      cases r with
      | err e =>
          rw [scanLine]
          split
          · exact ih.trans (List.suffix_cons _ _)
          · exact List.suffix_cons _ _
      | byte ch =>
          rw [scanLine]
          split
          · exact List.suffix_cons _ _
          · exact ih.trans (List.suffix_cons _ _)

theorem scanLine_rest_length {fd : Stream} (h : (scanLine fd).line ≠ []) :
    (scanLine fd).rest.length < fd.length := by
  induction fd with
  | nil => exact absurd rfl h
  | cons r fd ih =>
      have hle := (scanLine_rest_suffix fd).length_le
      cases r with
      | err e =>
          rw [scanLine] at h ⊢
          split at h
          · rename_i he
            have := ih h
            rw [if_pos he, List.length_cons]
            omega
          · exact absurd rfl h
      | byte ch =>
          rw [scanLine, List.length_cons]
          split
          · exact Nat.lt_succ_self _
          · exact Nat.lt_succ_of_le hle

/-- A call that returns a positive count has consumed something. -/
theorem readLine_rest_length {fd : Stream} {buf : Mem} {n : ℕ}
    (h : 0 < (readLine fd (some buf) n).ret) :
    (readLine fd (some buf) n).rest.length < fd.length := by
  rcases Nat.eq_zero_or_pos n with rfl | hn
  · simp [readLine] at h
  · rw [readLine_eq fd buf hn] at h ⊢
    rw [lineResult_rest]
    exact scanLine_rest_length (lineResult_ret_pos h)

/-! ## Stored bytes -/

/-- The C string a call leaves in the buffer does not depend on what was there before: it is what
was kept of the line, up to an embedded NUL. -/
theorem readLine_cString {fd : Stream} {buf : Mem} {n : ℕ}
    (h : 0 < (readLine fd (some buf) n).ret) (d : Mem) :
    ((readLine fd (some buf) n).buffer.getD d).cString n
      = ((scanLine fd).line.take (n - 1)).takeWhile (· != 0) := by
  have hn : 0 < n := by
    rcases Nat.eq_zero_or_pos n with rfl | hn
    · simp [readLine] at h
    · exact hn
  have hkept : ((scanLine fd).line.take (n - 1)).length < n := by
    rw [List.length_take]
    omega
  rw [readLine_eq fd buf hn] at h ⊢
  -- every call with a positive count ends in `terminate`
  have hterm : lineResult n buf 0 (scanLine fd)
      = terminate (store buf 0 ((scanLine fd).line.take (n - 1)))
          ((scanLine fd).line.take (n - 1)).length (scanLine fd).rest := by
    unfold lineResult at h ⊢
    simp only [Nat.sub_zero, Nat.zero_add] at h ⊢
    cases he : (scanLine fd).ending with
    | newline => rfl
    | err e =>
        rw [he] at h
        simp at h
    | eof =>
        rw [he] at h
        dsimp only at h ⊢
        split at h
        · simp at h
        · rename_i hk
          rw [if_neg hk]
  rw [hterm, terminate, Option.getD_some, Mem.cString_of_nul hkept (Function.update_self _ _ _),
    bytes_update_store]

/-! ## The first line of any stream -/

/-- The reads before end of file or the first error other than `EINTR`. -/
def Stream.readable (fd : Stream) : Stream := fd.takeWhile ReadResult.isClean

@[simp] theorem Stream.readable_byte (ch : UInt8) (fd : Stream) :
    Stream.readable (.byte ch :: fd) = .byte ch :: Stream.readable fd := rfl

@[simp] theorem Stream.readable_eintr (fd : Stream) :
    Stream.readable (.err .EINTR :: fd) = .err .EINTR :: Stream.readable fd := rfl

theorem Stream.readable_err {e : Errno} (he : e ≠ .EINTR) (fd : Stream) :
    Stream.readable (.err e :: fd) = [] := by
  rw [Stream.readable, List.takeWhile_cons, if_neg]
  simpa [ReadResult.isClean] using he

theorem Stream.readable_of_clean {fd : Stream} (h : fd.Clean) : fd.readable = fd :=
  List.takeWhile_eq_self_iff.mpr h

/-- The first line of a stream: its bytes up to and including the first newline, or all that can
be read. -/
def Stream.firstLine (fd : Stream) : List UInt8 := (splitLine newline fd.readable.data).1

/-- An error other than `EINTR` comes before the first line is complete. -/
def Stream.FailsInLine (fd : Stream) : Prop :=
  newline ∉ fd.readable.data ∧ ∃ r ∈ fd, r.isClean = false

instance (fd : Stream) : Decidable fd.FailsInLine :=
  inferInstanceAs (Decidable (_ ∧ ∃ r ∈ fd, _))

theorem Stream.failsInLine_eintr (fd : Stream) :
    Stream.FailsInLine (.err .EINTR :: fd) ↔ Stream.FailsInLine fd := by
  simp [Stream.FailsInLine, ReadResult.isClean]

theorem Stream.failsInLine_err {e : Errno} (he : e ≠ .EINTR) (fd : Stream) :
    Stream.FailsInLine (.err e :: fd) := by
  refine ⟨?_, .err e, List.mem_cons_self, ?_⟩
  · rw [Stream.readable_err he]
    exact List.not_mem_nil
  · simpa [ReadResult.isClean] using he

theorem Stream.failsInLine_byte {ch : UInt8} (hch : ch ≠ newline) (fd : Stream) :
    Stream.FailsInLine (.byte ch :: fd) ↔ Stream.FailsInLine fd := by
  simp [Stream.FailsInLine, ReadResult.isClean, Ne.symm hch]

/-- The scan finds the first line. -/
theorem scanLine_line (fd : Stream) : (scanLine fd).line = fd.firstLine := by
  induction fd with
  | nil => rfl
  | cons r fd ih =>
      cases r with
      | err e =>
          rw [scanLine]
          by_cases he : e = .EINTR
          · subst he
            rw [if_pos rfl, ih]
            rfl
          · rw [if_neg he, Stream.firstLine, Stream.readable_err he]
            rfl
      | byte ch =>
          rw [scanLine, Stream.firstLine, Stream.readable_byte, Stream.data_byte, splitLine]
          split
          · rfl
          · rw [ih]
            rfl

/-- A scan ends with an error exactly if one comes before the line is complete. -/
theorem scanLine_err_iff (fd : Stream) :
    (∃ e, (scanLine fd).ending = .err e) ↔ fd.FailsInLine := by
  induction fd with
  | nil => simp [scanLine, Stream.FailsInLine]
  | cons r fd ih =>
      cases r with
      | err e =>
          rw [scanLine]
          by_cases he : e = .EINTR
          · subst he
            rw [if_pos rfl, ih, Stream.failsInLine_eintr]
          · rw [if_neg he]
            exact iff_of_true ⟨e, rfl⟩ (Stream.failsInLine_err he fd)
      | byte ch =>
          rw [scanLine]
          split
          · rename_i hch
            simp [Stream.FailsInLine, hch]
          · rename_i hch
            rw [Stream.failsInLine_byte hch]
            exact ih

theorem scanLine_newline {fd : Stream} (h : (scanLine fd).ending = .newline) :
    (scanLine fd).line ≠ [] := by
  induction fd with
  | nil => cases h
  | cons r fd ih =>
      cases r with
      | err e =>
          rw [scanLine] at h ⊢
          split at h
          · rename_i he
            rw [if_pos he]
            exact ih h
          · cases h
      | byte ch =>
          rw [scanLine]
          split <;> simp

/-- The reads that were made on `fd` when `rest` is what is left of it. -/
def Stream.before (fd rest : Stream) : Stream := fd.take (fd.length - rest.length)

theorem Stream.before_cons {fd rest : Stream} (h : rest <:+ fd) (r : ReadResult) :
    Stream.before (r :: fd) rest = r :: fd.before rest := by
  have hle := h.length_le
  rw [Stream.before, List.length_cons, Nat.succ_sub hle, List.take_succ_cons]
  rfl

@[simp] theorem Stream.before_self (r : ReadResult) (fd : Stream) :
    Stream.before (r :: fd) fd = [r] := by
  simp [Stream.before]

/-- The bytes a scan has consumed are those of the line. -/
theorem scanLine_consumed (fd : Stream) :
    (fd.before (scanLine fd).rest).data = (scanLine fd).line := by
  induction fd with
  | nil => rfl
  | cons r fd ih =>
      have hsuf := scanLine_rest_suffix fd
      cases r with
      | err e =>
          rw [scanLine]
          split
          · rw [Stream.before_cons hsuf, Stream.data_err, ih]
          · rw [Stream.before_self]
            rfl
      | byte ch =>
          rw [scanLine]
          split
          · rw [Stream.before_self]
            rfl
          · rw [Stream.before_cons hsuf, Stream.data_byte, ih]

theorem length_take_pos {n : ℕ} (hn : 2 ≤ n) {l : List UInt8} (hne : l ≠ []) :
    0 < (l.take (n - 1)).length := by
  have := List.length_pos_of_ne_nil hne
  rw [List.length_take]
  omega

/-- A call that does not fail, with a line of at least one byte and room for one, terminates what
it kept of the line. -/
theorem readLine_of_line {fd : Stream} (hok : ¬ fd.FailsInLine) (hne : fd.firstLine ≠ []) {n : ℕ}
    (hn : 2 ≤ n) (buf : Mem) :
    readLine fd (some buf) n
      = terminate (store buf 0 (fd.firstLine.take (n - 1))) (fd.firstLine.take (n - 1)).length
          (scanLine fd).rest := by
  have hpos := length_take_pos hn hne
  rw [readLine_eq fd buf (by omega), lineResult, scanLine_line]
  simp only [Nat.sub_zero, Nat.zero_add]
  cases hend : (scanLine fd).ending with
  | newline => rfl
  | err e => exact absurd ((scanLine_err_iff fd).mp ⟨e, hend⟩) hok
  | eof =>
      dsimp only
      rw [if_neg (by omega)]

/-! ## Streams without read errors -/

/-- Cutting a line off a clean stream is cutting it off the stream's bytes. -/
theorem scanLine_clean {fd : Stream} (h : fd.Clean) :
    (scanLine fd).line = (splitLine newline fd.data).1
    ∧ (scanLine fd).rest.data = (splitLine newline fd.data).2
    ∧ ((scanLine fd).ending = .newline ∧ (scanLine fd).line ≠ []
        ∨ (scanLine fd).ending = .eof ∧ (scanLine fd).rest = []) := by
  induction fd with
  | nil => exact ⟨rfl, rfl, Or.inr ⟨rfl, rfl⟩⟩
  | cons r fd ih =>
      have hfd : Stream.Clean fd := fun x hx => h x (List.mem_cons_of_mem r hx)
      obtain ⟨hline, hrest, hend⟩ := ih hfd
      cases r with
      | err e =>
          have he : e = .EINTR := by simpa [ReadResult.isClean] using h (.err e) (by simp)
          rw [scanLine, if_pos he, Stream.data_err]
          exact ⟨hline, hrest, hend⟩
      | byte ch =>
          rw [scanLine, Stream.data_byte, splitLine]
          split
          · exact ⟨rfl, rfl, Or.inl ⟨rfl, by simp⟩⟩
          · refine ⟨by rw [hline], hrest, ?_⟩
            exact hend.imp (fun he => ⟨he.1, by simp⟩) id

theorem Stream.Clean.of_suffix {fd fd' : Stream} (h : fd.Clean) (hs : fd' <:+ fd) : fd'.Clean :=
  fun r hr => h r (hs.subset hr)

theorem Stream.Clean.not_failsInLine {fd : Stream} (h : fd.Clean) : ¬ fd.FailsInLine := by
  rintro ⟨-, r, hr, hdirty⟩
  rw [h r hr] at hdirty
  cases hdirty

/-- The bytes a call stored, as its caller sees them: the first `ret` bytes of the buffer. -/
def LineResult.stored (r : LineResult) : List UInt8 :=
  match r.buffer with
  | none => []
  | some mem => mem.bytes r.ret.toNat

theorem terminate_stored (buf : Mem) (cs : List UInt8) (rest : Stream) :
    (terminate (store buf 0 cs) cs.length rest).stored = cs := by
  simp only [LineResult.stored, terminate, Int.toNat_natCast]
  exact bytes_update_store buf cs 0

/-- What a call keeps of the first line of `data` in a buffer of `n` bytes. -/
def keptLine (n : ℕ) (data : List UInt8) : List UInt8 := (splitLine newline data).1.take (n - 1)

theorem keptLine_length_pos {n : ℕ} (hn : 2 ≤ n) {data : List UInt8} (hne : data ≠ []) :
    0 < (keptLine n data).length :=
  length_take_pos hn (splitLine_ne_nil newline hne)

/-- A call on a clean stream that has bytes left takes the next line. -/
theorem readLine_clean {fd : Stream} (h : fd.Clean) (hne : fd.data ≠ []) {n : ℕ} (hn : 2 ≤ n)
    (buf : Mem) :
    readLine fd (some buf) n
      = terminate (store buf 0 (keptLine n fd.data)) (keptLine n fd.data).length
          (scanLine fd).rest := by
  have hfirst : fd.firstLine = (splitLine newline fd.data).1 := by
    rw [Stream.firstLine, Stream.readable_of_clean h]
  have hline : fd.firstLine ≠ [] := by
    rw [hfirst]
    exact splitLine_ne_nil newline hne
  rw [readLine_of_line h.not_failsInLine hline hn buf, hfirst, keptLine]

/-- A call on a clean stream with no byte left returns 0 and stores nothing. -/
theorem readLine_clean_nil {fd : Stream} (h : fd.Clean) (hnil : fd.data = []) {n : ℕ} (hn : 0 < n)
    (buf : Mem) : readLine fd (some buf) n = ⟨0, none, some buf, []⟩ := by
  obtain ⟨hline, -, hend⟩ := scanLine_clean h
  rw [hnil, splitLine_nil] at hline
  rcases hend with ⟨-, hne⟩ | ⟨hend, hrest⟩
  · exact absurd hline hne
  · rw [readLine_eq fd buf hn, lineResult, hline, hend, hrest]
    simp [store]

/-! ## Reading a stream line by line -/

/-- What a caller gets that calls `readLine(fd, buf, n)` as long as it returns a positive count:
the stored bytes of each of these calls, the return value of the last call, and the stream after
it. -/
structure LinesResult where
  lines : List (List UInt8)
  ret : ℤ
  rest : Stream

def readLines (n : ℕ) (buf : Mem) (fd : Stream) : LinesResult :=
  let r := readLine fd (some buf) n
  if _h : 0 < r.ret then
    let t := readLines n (r.buffer.getD buf) r.rest
    { t with lines := r.stored :: t.lines }
  else ⟨[], r.ret, r.rest⟩
termination_by fd.length
decreasing_by exact readLine_rest_length _h

theorem readLines_clean {n : ℕ} (hn : 2 ≤ n) (fd : Stream) (hfd : fd.Clean) (buf : Mem) :
    readLines n buf fd = ⟨(lines newline fd.data).map (·.take (n - 1)), 0, []⟩ := by
  by_cases hnil : fd.data = []
  · rw [readLines, readLine_clean_nil hfd hnil (by omega) buf, hnil]
    simp
  · obtain ⟨hline, hdata, -⟩ := scanLine_clean hfd
    have hpos := keptLine_length_pos hn hnil
    -- the rest of the stream is clean again, and shorter
    have ih := readLines_clean hn (scanLine fd).rest (hfd.of_suffix (scanLine_rest_suffix fd))
    have hret : 0 < (readLine fd (some buf) n).ret := by
      rw [readLine_clean hfd hnil hn buf]
      exact Int.natCast_pos.mpr hpos
    rw [readLines]
    simp only [dif_pos hret]
    rw [readLine_clean hfd hnil hn buf, terminate_stored]
    simp only [terminate]
    rw [ih, hdata, lines_eq_cons newline hnil, List.map_cons, keptLine]
termination_by fd.length
decreasing_by exact scanLine_rest_length (by rw [hline]; exact splitLine_ne_nil newline hnil)

/-- **`readLine` splits a stream into its lines.** Called until it returns 0, it gives the lines
in order, each cut to `n - 1` bytes; it returns 0 only where no byte is left, and the calls
together consume the whole stream. If every line fits, nothing is lost. -/
theorem readLine_splits_stream {n : ℕ} (hn : 2 ≤ n) {fd : Stream} (hfd : fd.Clean) (buf : Mem) :
    (readLines n buf fd).lines = (lines newline fd.data).map (·.take (n - 1))
    ∧ ((readLines n buf fd).ret = 0 ∧ (readLines n buf fd).rest = [])
    ∧ (∀ (fd' : Stream) (buf' : Mem), fd' <:+ fd →
        (readLine fd' (some buf') n).ret = 0 → fd'.data = [])
    ∧ ((∀ l ∈ lines newline fd.data, l.length ≤ n - 1) →
        (readLines n buf fd).lines.flatten = fd.data) := by
  rw [readLines_clean hn fd hfd buf]
  refine ⟨rfl, ⟨rfl, rfl⟩, ?_, ?_⟩
  · intro fd' buf' hsuf hret
    by_contra hne
    have hpos := keptLine_length_pos hn hne
    rw [readLine_clean (hfd.of_suffix hsuf) hne hn buf', terminate] at hret
    simp only [Int.natCast_eq_zero] at hret
    omega
  · intro hfit
    have hid : (lines newline fd.data).map (·.take (n - 1)) = lines newline fd.data :=
      (List.map_congr_left fun l hl => List.take_of_length_le (hfit l hl)).trans (List.map_id _)
    rw [hid, flatten_lines]

/-- A stream of two lines and an unterminated one, with an interruption inside a line. -/
def threeLines : Stream :=
  [.byte 97, .byte 10, .byte 98, .err .EINTR, .byte 99, .byte 10, .byte 100]

theorem readLine_splits_threeLines :
    (readLines 3 (fun _ => 0) threeLines).lines = [[97, 10], [98, 99], [100]]
    ∧ (readLines 4 (fun _ => 0) threeLines).lines.flatten = [97, 10, 98, 99, 10, 100] := by
  have hclean : threeLines.Clean := by decide
  have hcut := readLine_splits_stream (show 2 ≤ 3 by decide) hclean (fun _ => 0)
  have hfit := readLine_splits_stream (show 2 ≤ 4 by decide) hclean (fun _ => 0)
  refine ⟨hcut.1.trans (by decide), (hfit.2.2.2 (by decide)).trans (by decide)⟩

/-! ## One call on any stream -/

/-- The stream without its interrupted reads. -/
def Stream.withoutEintr (fd : Stream) : Stream := fd.filter (· ≠ .err .EINTR)

/-- Interrupted reads are not seen. -/
theorem scanLine_withoutEintr (fd : Stream) :
    scanLine fd.withoutEintr
      = { scanLine fd with rest := Stream.withoutEintr (scanLine fd).rest } := by
  induction fd with
  | nil => rfl
  | cons r fd ih =>
      by_cases hr : r = .err .EINTR
      · subst hr
        rw [Stream.withoutEintr, List.filter_cons_of_neg (by simp), ← Stream.withoutEintr, ih]
        rfl
      · rw [Stream.withoutEintr, List.filter_cons_of_pos (by simpa using hr),
          ← Stream.withoutEintr]
        cases r with
        | err e =>
            have he : e ≠ .EINTR := fun heq => hr (by rw [heq])
            rw [scanLine, scanLine, if_neg he, if_neg he]
        | byte ch =>
            rw [scanLine, scanLine, ih]
            split <;> rfl

/-- The stream after the line is passed through. -/
theorem lineResult_with_rest (n : ℕ) (buf : Mem) (totRead : ℕ) (sc : Scan) (rest : Stream) :
    lineResult n buf totRead { sc with rest := rest }
      = { lineResult n buf totRead sc with rest := rest } := by
  unfold lineResult terminate
  cases sc.ending with
  | newline => rfl
  | err e => rfl
  | eof => dsimp only; split <;> rfl

/-- Whatever a call does, it writes at most the first `n` bytes of the buffer. -/
theorem lineResult_frame (n : ℕ) (hn : 0 < n) (buf : Mem) (sc : Scan) :
    ∃ mem, (lineResult n buf 0 sc).buffer = some mem ∧ ∀ i, n ≤ i → mem i = buf i := by
  have hlen : (sc.line.take (n - 1)).length ≤ n - 1 := by
    rw [List.length_take]
    omega
  have hstore : ∀ i, n ≤ i → store buf 0 (sc.line.take (n - 1)) i = buf i := by
    intro i hi
    exact store_of_ge (by omega)
  have hterm : ∀ i, n ≤ i → Function.update (store buf 0 (sc.line.take (n - 1)))
      (sc.line.take (n - 1)).length 0 i = buf i := by
    intro i hi
    rw [Function.update_of_ne (by omega), hstore i hi]
  unfold lineResult terminate
  simp only [Nat.sub_zero, Nat.zero_add]
  cases sc.ending with
  | newline => exact ⟨_, rfl, hterm⟩
  | err e => exact ⟨_, rfl, hstore⟩
  | eof =>
      dsimp only
      split
      · exact ⟨_, rfl, hstore⟩
      · exact ⟨_, rfl, hterm⟩

/-- **One call of `readLine`.** An error before the line is complete gives `-1`. At end of file
before any byte the call returns 0 and leaves the buffer alone. Otherwise it consumes exactly the
line, stores as much of it as fits before the NUL, and touches nothing behind the NUL. No byte
from `n` on is written in any case, and interrupted reads make no difference. -/
theorem readLine_spec {n : ℕ} (hn : 2 ≤ n) (fd : Stream) (buf : Mem) :
    (fd.FailsInLine → (readLine fd (some buf) n).ret = -1)
    ∧ (¬ fd.FailsInLine → fd.readable.data = [] →
        (readLine fd (some buf) n).ret = 0 ∧ (readLine fd (some buf) n).buffer = some buf)
    ∧ (¬ fd.FailsInLine → fd.readable.data ≠ [] →
        (readLine fd (some buf) n).rest <:+ fd
        ∧ (fd.before (readLine fd (some buf) n).rest).data = fd.firstLine
        ∧ (readLine fd (some buf) n).ret = min fd.firstLine.length (n - 1)
        ∧ ∃ mem, (readLine fd (some buf) n).buffer = some mem
            ∧ mem.bytes (min fd.firstLine.length (n - 1))
                = fd.firstLine.take (min fd.firstLine.length (n - 1))
            ∧ mem (min fd.firstLine.length (n - 1)) = 0
            ∧ ∀ i, min fd.firstLine.length (n - 1) < i → mem i = buf i)
    ∧ (∃ mem, (readLine fd (some buf) n).buffer = some mem ∧ ∀ i, n ≤ i → mem i = buf i)
    ∧ (readLine fd.withoutEintr (some buf) n).ret = (readLine fd (some buf) n).ret
    ∧ (readLine fd.withoutEintr (some buf) n).errno = (readLine fd (some buf) n).errno
    ∧ (readLine fd.withoutEintr (some buf) n).buffer = (readLine fd (some buf) n).buffer := by
  have hpos : 0 < n := by omega
  refine ⟨?_, ?_, ?_, ?_, ?_⟩
  · intro hfails
    obtain ⟨e, he⟩ := (scanLine_err_iff fd).mpr hfails
    rw [readLine_eq fd buf hpos, lineResult, he]
  · intro hok hnil
    have hline : (scanLine fd).line = [] := by
      rw [scanLine_line, Stream.firstLine, hnil]
      rfl
    rw [readLine_eq fd buf hpos, lineResult, hline]
    cases hend : (scanLine fd).ending with
    | newline => exact absurd hline (scanLine_newline hend)
    | err e => exact absurd ((scanLine_err_iff fd).mp ⟨e, hend⟩) hok
    | eof => simp [store]
  · intro hok hne
    have hline : fd.firstLine ≠ [] := splitLine_ne_nil newline hne
    have hlen : (fd.firstLine.take (n - 1)).length = min fd.firstLine.length (n - 1) := by
      rw [List.length_take, Nat.min_comm]
    have htake : fd.firstLine.take (min fd.firstLine.length (n - 1))
        = fd.firstLine.take (n - 1) := by
      rw [Nat.min_comm, ← List.take_take, List.take_length]
    rw [readLine_of_line hok hline hn buf, terminate, ← hlen]
    refine ⟨scanLine_rest_suffix fd, ?_, rfl, _, rfl, ?_, Function.update_self _ _ _, ?_⟩
    · rw [scanLine_consumed, scanLine_line]
    · rw [bytes_update_store, hlen, htake]
    · intro i hi
      rw [Function.update_of_ne (by omega), store_of_ge (by omega)]
  · rw [readLine_eq fd buf hpos]
    exact lineResult_frame n hpos buf (scanLine fd)
  · rw [readLine_eq fd buf hpos, readLine_eq fd.withoutEintr buf hpos, scanLine_withoutEintr,
      lineResult_with_rest]
    exact ⟨rfl, rfl, rfl⟩

/-- The first call on `threeLines`, and a call on a stream that fails inside its first line. -/
theorem readLine_spec_threeLines :
    (readLine threeLines (some fun _ => 7) 2).ret = 1
    ∧ (threeLines.before (readLine threeLines (some fun _ => 7) 2).rest).data = [97, 10]
    ∧ (readLine [.byte 97, .err (.other 5)] (some fun _ => 7) 2).ret = -1 := by
  have hline := (readLine_spec (show 2 ≤ 2 by decide) threeLines (fun _ => 7)).2.2.1
    (by decide) (by decide)
  have hfail := (readLine_spec (show 2 ≤ 2 by decide) [.byte 97, .err (.other 5)] (fun _ => 7)).1
    (by decide)
  exact ⟨hline.2.2.1.trans (by decide), hline.2.1.trans (by decide), hfail⟩

/-! ## The smallest buffer

End of file is told from an empty line by `totRead == 0`, the number of bytes stored, and with
`n = 1` no byte is ever stored. -/

/-- What a caller relies on: 0 is returned only at end of file with no byte consumed, and after a
call that has consumed a byte the buffer is a string of the returned length. -/
def LineContract (fd : Stream) (r : LineResult) : Prop :=
  (r.ret = 0 → r.rest = [] ∧ (fd.before r.rest).data = [])
  ∧ ((fd.before r.rest).data ≠ [] → 0 ≤ r.ret ∧ ∃ mem, r.buffer = some mem ∧ mem r.ret.toNat = 0)

/-- A buffer of one byte: whatever the line, the call returns 0. -/
theorem readLine_one_ret {fd : Stream} (h : fd.Clean) (buf : Mem) :
    (readLine fd (some buf) 1).ret = 0 := by
  rw [readLine_eq fd buf (by omega), lineResult]
  cases hend : (scanLine fd).ending with
  | newline => rfl
  | err e => exact absurd ((scanLine_err_iff fd).mp ⟨e, hend⟩) h.not_failsInLine
  | eof => rfl

/-- **`readLine` at the sizes it accepts.** Without read errors, a call with `n ≥ 1` keeps the
contract exactly if the buffer has room for a byte besides the NUL, or the stream has no byte. -/
theorem readLine_contract_iff {n : ℕ} (hn : 1 ≤ n) {fd : Stream} (hfd : fd.Clean) (buf : Mem) :
    LineContract fd (readLine fd (some buf) n) ↔ 2 ≤ n ∨ fd.data = [] := by
  have hrest : (readLine fd (some buf) n).rest = (scanLine fd).rest := by
    rw [readLine_eq fd buf hn, lineResult_rest]
  have hline : (fd.before (scanLine fd).rest).data = (splitLine newline fd.data).1 := by
    rw [scanLine_consumed, scanLine_line, Stream.firstLine, Stream.readable_of_clean hfd]
  by_cases hnil : fd.data = []
  · -- nothing to read: the call returns 0 at end of file, whatever the size
    refine iff_of_true ?_ (Or.inr hnil)
    have hnone : (fd.before (scanLine fd).rest).data = [] := by
      rw [hline, hnil]
      rfl
    refine ⟨fun _ => ⟨?_, by rw [hrest, hnone]⟩, fun hne => absurd (by rw [hrest, hnone]) hne⟩
    rw [readLine_clean_nil hfd hnil hn buf]
  · have hne : (fd.before (scanLine fd).rest).data ≠ [] := by
      rw [hline]
      exact splitLine_ne_nil newline hnil
    by_cases htwo : 2 ≤ n
    · -- a byte fits, so the call stores one and terminates
      refine iff_of_true ?_ (Or.inl htwo)
      have hpos := keptLine_length_pos htwo hnil
      rw [readLine_clean hfd hnil htwo buf, terminate]
      refine ⟨fun hret => ?_, fun _ => ⟨Int.natCast_nonneg _, _, rfl, ?_⟩⟩
      · rw [Int.natCast_eq_zero] at hret
        omega
      · exact Function.update_self _ _ _
    · -- `n = 1`: the line is consumed and 0 is returned
      have hone : n = 1 := by omega
      subst hone
      refine iff_of_false ?_ (by simp [hnil])
      intro hcontract
      have := (hcontract.1 (readLine_one_ret hfd buf)).2
      rw [hrest] at this
      exact hne this

theorem readLine_contract_two :
    LineContract threeLines (readLine threeLines (some fun _ => 7) 2) :=
  (readLine_contract_iff (show 1 ≤ 2 by decide) (show threeLines.Clean by decide)
    (fun _ => 7)).mpr (Or.inl (by decide))

/-- With one byte of room an empty line gives 0, and a line cut off by end of file leaves the
buffer without its NUL. -/
theorem readLine_contract_fails_one :
    ¬ LineContract [.byte newline] (readLine [.byte newline] (some fun _ => 7) 1)
    ∧ ¬ LineContract [.byte 97] (readLine [.byte 97] (some fun _ => 7) 1)
    ∧ (readLine [.byte 97] (some fun _ => 7) 1).ret = 0
    ∧ ((readLine [.byte 97] (some fun _ => 7) 1).buffer.map (· 0)) = some 7 := by
  refine ⟨?_, ?_, rfl, rfl⟩
  · intro h
    have := (h.1 rfl).2
    exact absurd this (by decide)
  · intro h
    have := (h.1 rfl).2
    exact absurd this (by decide)

end Tlpi
