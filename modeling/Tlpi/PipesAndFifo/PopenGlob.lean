import Tlpi.Posix.Stdio

set_option autoImplicit false

/-! # Globbing through a shell (pipes_and_fifo/popen_glob.c)

The program reads patterns with `fgets`, lets only letters, digits and a few other characters pass,
and has a shell run `ls` on the pattern. What `fgets` returns is a chunk, which is not always a
line: a long line comes in several chunks, and a last line may lack its newline.
-/

namespace Tlpi.PopenGlob

open Decimal Lines

def POPEN_FMT : List UInt8 := str "/bin/ls -d %s 2> /dev/null"

def PAT_SIZE : ℕ := 50

/-- `sizeof(POPEN_FMT) + PAT_SIZE`. -/
def PCMD_BUF_SIZE : ℕ := POPEN_FMT.length + 1 + PAT_SIZE

def PATH_MAX : ℕ := 4096

/-- A format whose only conversion is one `%s`. -/
def format : List UInt8 → List UInt8 → List UInt8
  | a :: b :: fmt, arg =>
      if a = chr '%' ∧ b = chr 's' then arg ++ fmt else a :: format (b :: fmt) arg
  | fmt, _ => fmt

/-- `isalnum` in the C locale. -/
def isalnum (c : UInt8) : Bool :=
  isDigit c || decide (65 ≤ c ∧ c ≤ 90) || decide (97 ≤ c ∧ c ≤ 122)

/-- `strchr(s, c) != NULL`: the terminating NUL is found as well. -/
def strchr (s : List UInt8) (c : UInt8) : Bool := decide (c ∈ s ++ [0])

def globChars : List UInt8 := str "_*?[^-]."

/-- What becomes of a pattern: a bad character, a failed `popen`, or what the shell printed and the
status `pclose` returned. -/
inductive Outcome where
  | bad (ch : UInt8)
  | popenFailed (cmd : List UInt8)
  | globbed (cmd : List UInt8) (pathnames : List (List UInt8)) (status : BitVec 32)
deriving DecidableEq, Repr

/-- What the program does: it asks for a pattern, or it considers the one in `pat`. -/
inductive Event where
  | prompt
  | considered (pat : List UInt8) (outcome : Outcome)
deriving DecidableEq, Repr

/-- The command given to `popen`. -/
def Event.cmd? : Event → Option (List UInt8)
  | considered _ (.popenFailed cmd) => some cmd
  | considered _ (.globbed cmd _ _) => some cmd
  | _ => none

def Event.pattern? : Event → Option (List UInt8)
  | considered pat _ => some pat
  | prompt => none

/-- The buffers, and the number of commands run. -/
structure State where
  pat : Mem
  pathname : Mem
  calls : ℕ

section

-- the k-th command: what the shell prints and its status, or a failure of `popen`
variable (shell : ℕ → List UInt8 → Option (List UInt8 × BitVec 32))

/-- The first `j < len` at which the check of the pattern stops. -/
def badIndex (pat : Mem) (len : ℕ) : Option ℕ :=
  (List.range len).find? fun j => !isalnum (pat j) && !strchr globChars (pat j)

/-- `if (pat[len-1] == '\n') pat[len-1] = '\0'`. -/
def stripNewline (pat : Mem) (len : ℕ) : Mem :=
  if pat (len - 1) = newline then Function.update pat (len - 1) 0 else pat

/-- The body of the loop, after `fgets` has filled `pat`. -/
def body (s : State) : List Event × State :=
  let len := (s.pat.cString PAT_SIZE).length
  if len ≤ 1 then ([], s)
  else
    let pat := stripNewline s.pat len
    let pattern := pat.cString PAT_SIZE
    -- up to the old length: in place of the newline there is a NUL, which `strchr` finds
    match badIndex pat len with
    | some j => ([.considered pattern (.bad (pat j))], { s with pat := pat })
    | none =>
        let popenCmd := snprintf PCMD_BUF_SIZE (format POPEN_FMT pattern)
        match shell s.calls popenCmd with
        | none =>
            ([.considered pattern (.popenFailed popenCmd)],
              { s with pat := pat, calls := s.calls + 1 })
        | some (output, status) =>
            let (pathnames, pathname) := fgetsAll PATH_MAX (by decide) s.pathname output
            ([.considered pattern (.globbed popenCmd pathnames status)],
              ⟨pat, pathname, s.calls + 1⟩)

/-- The program, on what is left of its standard input. -/
def run (s : State) (stdin : List UInt8) : List Event :=
  Event.prompt ::
    match _h : fgets PAT_SIZE s.pat stdin with
    | none => []
    | some (pat, rest) =>
        (body shell { s with pat := pat }).1 ++ run (body shell { s with pat := pat }).2 rest
termination_by stdin.length
decreasing_by exact fgets_rest_length (by decide) _h

end

/-! ## One pattern -/

/-- A chunk without its newline. -/
def strip (p : List UInt8) : List UInt8 := if p.getLast? = some newline then p.dropLast else p

variable {shell : ℕ → List UInt8 → Option (List UInt8 × BitVec 32)} {s : State} {p : List UInt8}

theorem length_strip_le (p : List UInt8) : (strip p).length ≤ p.length := by
  unfold strip
  split
  · rw [List.length_dropLast]
    omega
  · exact le_refl _

theorem length_le_length_strip (p : List UInt8) : p.length ≤ (strip p).length + 1 := by
  unfold strip
  split
  · rw [List.length_dropLast]
    omega
  · omega

theorem stripNewline_holds {pat : Mem} (h : pat.Holds p) (hne : p ≠ []) :
    (stripNewline pat p.length).Holds (strip p) := by
  have hpos := List.length_pos_of_ne_nil hne
  have hlast : p.getLast? = some (pat (p.length - 1)) := by
    rw [List.getLast?_eq_getElem?, List.getElem?_eq_getElem (by omega), h.get (by omega)]
  simp only [stripNewline, strip, hlast, Option.some.injEq]
  split
  · exact h.dropLast
  · exact h

/-- A pattern that passes the check; a NUL passes too, but it is not part of the pattern. -/
theorem valid_of_badIndex {pat : Mem} {len : ℕ} (h : badIndex pat len = none) (hpat : pat.Holds p)
    (hlen : p.length ≤ len) : ∀ c ∈ p, isalnum c = true ∨ c ∈ globChars := by
  intro c hc
  obtain ⟨j, hj, rfl⟩ := List.mem_iff_getElem.mp hc
  have hne : p[j] ≠ 0 := fun h0 => hpat.noNul (h0 ▸ List.getElem_mem hj)
  have hpass := List.find?_eq_none.mp h j (List.mem_range.mpr (by omega))
  rw [hpat.get hj] at hpass
  simpa [strchr, hne, or_iff_not_imp_left] using hpass

/-- The other way round; the check goes up to the NUL in place of the newline. -/
theorem badIndex_of_valid {pat : Mem} {len : ℕ} (hpat : pat.Holds p) (hlen : len ≤ p.length + 1)
    (h : ∀ c ∈ p, isalnum c = true ∨ c ∈ globChars) : badIndex pat len = none := by
  refine List.find?_eq_none.mpr fun j hj => ?_
  have hlt := List.mem_range.mp hj
  by_cases hin : j < p.length
  · have hvalid := h p[j] (List.getElem_mem hin)
    rw [hpat.get hin]
    rcases hvalid with hvalid | hvalid <;> simp [strchr, hvalid]
  · have hend : j = p.length := by omega
    rw [hend, hpat.nul]
    decide

/-- What the body does with the C string in `pat`. -/
theorem body_spec (shell : ℕ → List UInt8 → Option (List UInt8 × BitVec 32))
    (h : s.pat.Holds p) (hlen : p.length < PAT_SIZE) :
    (p.length ≤ 1 ∧ (body shell s).1 = []) ∨
      (2 ≤ p.length ∧ ∃ o, (body shell s).1 = [.considered (strip p) o] ∧
        ∀ cmd, Event.cmd? (.considered (strip p) o) = some cmd →
          cmd = snprintf PCMD_BUF_SIZE (format POPEN_FMT (strip p)) ∧
            ∀ c ∈ strip p, isalnum c = true ∨ c ∈ globChars) := by
  have hcString : s.pat.cString PAT_SIZE = p := h.cString hlen
  by_cases hshort : p.length ≤ 1
  · refine Or.inl ⟨hshort, ?_⟩
    simp only [body, hcString, if_pos hshort]
  · have hne : p ≠ [] := fun hnil => hshort (by rw [hnil]; simp)
    have hstrip := stripNewline_holds h hne
    have hle := length_strip_le p
    have hpattern : (stripNewline s.pat p.length).cString PAT_SIZE = strip p :=
      hstrip.cString (by omega)
    refine Or.inr ⟨by omega, ?_⟩
    simp only [body, hcString, if_neg hshort, hpattern]
    cases hbad : badIndex (stripNewline s.pat p.length) p.length with
    | some j => exact ⟨_, rfl, fun cmd hcmd => nomatch hcmd⟩
    | none =>
        have hvalid := valid_of_badIndex hbad hstrip hle
        cases hshell : shell s.calls (snprintf PCMD_BUF_SIZE (format POPEN_FMT (strip p))) with
        | none => exact ⟨_, rfl, fun cmd hcmd => ⟨(Option.some.inj hcmd).symm, hvalid⟩⟩
        | some result => exact ⟨_, rfl, fun cmd hcmd => ⟨(Option.some.inj hcmd).symm, hvalid⟩⟩

/-- What the program does with the first chunk of its input. -/
theorem run_cons (shell : ℕ → List UInt8 → Option (List UInt8 × BitVec 32)) (s : State)
    {stdin : List UInt8} (hne : stdin ≠ []) :
    ∃ t : State, t.pat.Holds ((splitChunk newline (PAT_SIZE - 1) stdin).1.takeWhile (· != 0)) ∧
      run shell s stdin = .prompt :: ((body shell t).1
        ++ run shell (body shell t).2 (splitChunk newline (PAT_SIZE - 1) stdin).2) := by
  rw [run]
  split
  · rename_i hnone
    exact absurd (fgets_eq_none hnone) hne
  · rename_i pat rest hsome
    obtain ⟨-, rfl, hholds⟩ := fgets_eq_some hsome
    exact ⟨{ s with pat := pat }, hholds, rfl⟩

theorem run_nil (shell : ℕ → List UInt8 → Option (List UInt8 × BitVec 32)) (s : State) :
    run shell s [] = [.prompt] := by
  rw [run]
  rfl

/-- The C string of a chunk fits into `pat`. -/
theorem length_cString_chunk_lt (stdin : List UInt8) :
    ((splitChunk newline (PAT_SIZE - 1) stdin).1.takeWhile (· != 0)).length < PAT_SIZE := by
  have hle := (List.takeWhile_prefix (p := (· != (0 : UInt8)))
    (l := (splitChunk newline (PAT_SIZE - 1) stdin).1)).length_le
  have hchunk := splitChunk_length_le newline (PAT_SIZE - 1) stdin
  simp only [PAT_SIZE] at hle hchunk ⊢
  omega

/-! ## The commands -/

/-- The commands given to the shell, in order. -/
def commands (events : List Event) : List (List UInt8) := events.filterMap Event.cmd?

/-- The characters that mean something to a shell, the globbing ones apart, and the blanks. -/
def shellChars : List UInt8 := str " \t\n;|&<>()$`'\"\\#~!\x7b\x7d"

theorem format_popen (arg : List UInt8) :
    format POPEN_FMT arg = str "/bin/ls -d " ++ arg ++ str " 2> /dev/null" := rfl

/-- A pattern that fits into `pat` makes a command that fits into `popenCmd`. -/
theorem format_popen_length_lt (h : p.length < PAT_SIZE) :
    (format POPEN_FMT p).length < PCMD_BUF_SIZE := by
  have hpre : (str "/bin/ls -d ").length = 11 := by decide
  have hpost : (str " 2> /dev/null").length = 13 := by decide
  have hsize : PCMD_BUF_SIZE = 77 := by decide
  rw [PAT_SIZE] at h
  rw [format_popen, List.length_append, List.length_append, hpre, hpost, hsize]
  omega

theorem not_shellChar {c : UInt8} (h : isalnum c = true ∨ c ∈ globChars) : c ∉ shellChars := by
  have htable : (shellChars.all fun c => !isalnum c && !globChars.contains c) = true := by decide
  intro hc
  have hpair := List.all_eq_true.mp htable c hc
  rcases h with h | h
  · simp [h] at hpair
  · simp [h] at hpair

/-- `cmd` runs `ls` on the pattern `p`, and nothing else. -/
structure SafeCommand (cmd p : List UInt8) : Prop where
  shape : cmd = str "/bin/ls -d " ++ p ++ str " 2> /dev/null"
  pos : 1 ≤ p.length
  le : p.length ≤ PAT_SIZE - 1
  chars : ∀ c ∈ p, isalnum c = true ∨ c ∈ globChars
  fits : (format POPEN_FMT p).length < PCMD_BUF_SIZE
  harmless : ∀ c ∈ p, c ∉ shellChars

theorem body_command_safe (h : s.pat.Holds p) (hlen : p.length < PAT_SIZE) {cmd : List UInt8}
    (hcmd : cmd ∈ commands (body shell s).1) : ∃ q, SafeCommand cmd q := by
  rcases body_spec shell h hlen with ⟨-, hbody⟩ | ⟨hlong, o, hbody, hspec⟩
  · rw [hbody] at hcmd
    cases hcmd
  · obtain ⟨e, he, hcmd⟩ := List.mem_filterMap.mp hcmd
    rw [hbody, List.mem_singleton] at he
    rw [he] at hcmd
    obtain ⟨rfl, hchars⟩ := hspec cmd hcmd
    have hle := length_strip_le p
    have hge := length_le_length_strip p
    have hfits := format_popen_length_lt (p := strip p) (by omega)
    refine ⟨strip p, ?_, by omega, by omega, hchars, hfits, fun c hc => not_shellChar (hchars c hc)⟩
    rw [snprintf_of_lt hfits, format_popen]

/-- A pattern of allowed characters is given to the shell. -/
theorem body_of_valid (shell : ℕ → List UInt8 → Option (List UInt8 × BitVec 32))
    (h : s.pat.Holds p) (hlen : p.length < PAT_SIZE) (hlong : 2 ≤ p.length)
    (hvalid : ∀ c ∈ strip p, isalnum c = true ∨ c ∈ globChars) :
    commands (body shell s).1 = [format POPEN_FMT (strip p)] := by
  have hne : p ≠ [] := List.ne_nil_of_length_pos (by omega)
  have hstrip := stripNewline_holds h hne
  have hle := length_strip_le p
  have hbad := badIndex_of_valid hstrip (length_le_length_strip p) hvalid
  have hpattern : (stripNewline s.pat p.length).cString PAT_SIZE = strip p :=
    hstrip.cString (by omega)
  have hfits := format_popen_length_lt (p := strip p) (by omega)
  simp only [body, h.cString hlen, if_neg (show ¬ p.length ≤ 1 by omega), hbad, hpattern,
    snprintf_of_lt hfits]
  cases shell s.calls (format POPEN_FMT (strip p)) with
  | none => rfl
  | some result => rfl

/-- **No shell text in a command.** Whatever the input is, a command given to the shell is `ls` on a
pattern of letters, digits and globbing characters, and it is not cut off. -/
theorem commands_safe (shell : ℕ → List UInt8 → Option (List UInt8 × BitVec 32)) (s : State)
    (stdin : List UInt8) :
    ∀ cmd ∈ commands (run shell s stdin), ∃ p, SafeCommand cmd p := by
  -- over the chunks: one of them gives at most one command
  induction hn : stdin.length using Nat.strong_induction_on generalizing s stdin with
  | _ n ih =>
      intro cmd hcmd
      by_cases hne : stdin = []
      · rw [hne, run_nil] at hcmd
        cases hcmd
      · obtain ⟨t, hholds, hrun⟩ := run_cons shell s hne
        rw [hrun, commands, List.filterMap_cons_none rfl, List.filterMap_append] at hcmd
        rcases List.mem_append.mp hcmd with hbody | hrest
        · exact body_command_safe hholds (length_cString_chunk_lt stdin) hbody
        · have hlt := splitChunk_snd_length_lt newline (n := PAT_SIZE - 1) (by decide) hne
          exact ih _ (by omega) _ _ rfl cmd hrest

theorem star_command_safe :
    ∃ cmd ∈ commands (run (fun _ _ => none) ⟨fun _ => 0, fun _ => 0, 0⟩ (str "a*\n")),
      ∃ p, SafeCommand cmd p := by
  obtain ⟨t, hholds, hrun⟩ := run_cons (fun _ _ => none) ⟨fun _ => 0, fun _ => 0, 0⟩
    (show str "a*\n" ≠ [] by decide)
  have hvalid : ∀ c ∈ str "a*", isalnum c = true ∨ c ∈ globChars := by
    have htable : ((str "a*").all fun c => isalnum c || globChars.contains c) = true := by decide
    intro c hc
    simpa using List.all_eq_true.mp htable c hc
  have hbody := body_of_valid (fun _ _ => none) hholds (by decide) (by decide) hvalid
  have hmem : format POPEN_FMT (str "a*")
      ∈ commands (run (fun _ _ => none) ⟨fun _ => 0, fun _ => 0, 0⟩ (str "a*\n")) := by
    rw [hrun, commands, List.filterMap_cons_none rfl, List.filterMap_append]
    refine List.mem_append_left _ ?_
    rw [commands] at hbody
    rw [hbody]
    decide
  exact ⟨_, hmem, commands_safe _ _ _ _ hmem⟩

/-! ## The lines of the input -/

/-- The patterns the loop considers, in order. -/
def considered (events : List Event) : List (List UInt8) := events.filterMap Event.pattern?

/-- The non-empty lines of an input, without their newlines. -/
def inputLines (stdin : List UInt8) : List (List UInt8) :=
  ((lines newline stdin).map fun line => line.takeWhile (· != newline)).filter (· != [])

/-- The lines fit into a chunk each, and a last line without newline has not only one character. -/
def Readable (stdin : List UInt8) : Prop :=
  ∀ line ∈ lines newline stdin,
    (line.takeWhile (· != newline)).length ≤ PAT_SIZE - 1 ∧ (newline ∉ line → line.length ≠ 1)

/-- What the loop makes of a chunk without NUL. -/
def patternOf (chunk : List UInt8) : List (List UInt8) :=
  if chunk.length ≤ 1 then [] else [strip chunk]

/-- What it should make of a line. -/
def lineOf (line : List UInt8) : List (List UInt8) :=
  if line.takeWhile (· != newline) = [] then [] else [line.takeWhile (· != newline)]

theorem considered_nil (shell : ℕ → List UInt8 → Option (List UInt8 × BitVec 32)) (s : State) :
    considered (run shell s []) = [] := by
  rw [run_nil]
  rfl

theorem considered_cons (shell : ℕ → List UInt8 → Option (List UInt8 × BitVec 32)) (s : State)
    {stdin : List UInt8} (hne : stdin ≠ []) (h0 : (0 : UInt8) ∉ stdin) :
    ∃ t, considered (run shell s stdin)
      = patternOf (splitChunk newline (PAT_SIZE - 1) stdin).1
        ++ considered (run shell t (splitChunk newline (PAT_SIZE - 1) stdin).2) := by
  obtain ⟨t, hholds, hrun⟩ := run_cons shell s hne
  have hsub : (0 : UInt8) ∉ (splitChunk newline (PAT_SIZE - 1) stdin).1 := by
    intro hmem
    rw [← splitChunk_append newline (PAT_SIZE - 1) stdin] at h0
    exact h0 (List.mem_append_left _ hmem)
  have hlen := length_cString_chunk_lt stdin
  rw [takeWhile_of_no_nul hsub] at hholds hlen
  refine ⟨(body shell t).2, ?_⟩
  rw [hrun, considered, List.filterMap_cons_none rfl, List.filterMap_append, patternOf]
  congr 1
  rcases body_spec shell hholds hlen with ⟨hshort, hbody⟩ | ⟨hlong, o, hbody, -⟩
  · rw [hbody, if_pos hshort]
    rfl
  · rw [hbody, if_neg (by omega)]
    rfl

theorem inputLines_cons {stdin : List UInt8} (hne : stdin ≠ []) :
    inputLines stdin
      = lineOf (splitLine newline stdin).1 ++ inputLines (splitLine newline stdin).2 := by
  rw [inputLines, lines_eq_cons newline hne, List.map_cons, List.filter_cons, lineOf]
  split
  · rename_i hline
    rw [if_neg (by simpa using hline)]
    rfl
  · rename_i hline
    rw [if_pos (by simpa using hline)]
    rfl

theorem readable_cons {stdin : List UInt8} (hne : stdin ≠ []) :
    Readable stdin ↔
      (((splitLine newline stdin).1.takeWhile (· != newline)).length ≤ PAT_SIZE - 1 ∧
        (newline ∉ (splitLine newline stdin).1 → (splitLine newline stdin).1.length ≠ 1)) ∧
      Readable (splitLine newline stdin).2 := by
  rw [Readable, lines_eq_cons newline hne, List.forall_mem_cons]
  rfl

/-- A line that is too long: the loop takes its beginning for a pattern. -/
theorem considered_ne_of_long (shell : ℕ → List UInt8 → Option (List UInt8 × BitVec 32))
    (s : State) {stdin : List UInt8} (hne : stdin ≠ []) (h0 : (0 : UInt8) ∉ stdin)
    (hlong : PAT_SIZE - 1 < ((splitLine newline stdin).1.takeWhile (· != newline)).length) :
    considered (run shell s stdin) ≠ inputLines stdin := by
  have hprefix := (List.takeWhile_prefix (p := (· != newline))
    (l := (splitLine newline stdin).1)).length_le
  obtain ⟨t, hconsidered⟩ := considered_cons shell s hne h0
  have hchunk : (splitChunk newline (PAT_SIZE - 1) stdin).1.length = PAT_SIZE - 1 := by
    rw [splitChunk_fst, List.length_take]
    omega
  have hcontent : (splitLine newline stdin).1.takeWhile (· != newline) ≠ [] := by
    intro hnil
    rw [hnil] at hlong
    simp at hlong
  rw [hconsidered, inputLines_cons hne, patternOf, lineOf, if_neg hcontent,
    if_neg (by rw [hchunk]; decide)]
  -- the first pattern is shorter than the first line
  intro heq
  have hhead := congrArg List.length (List.cons.inj heq).1
  have hle := length_strip_le (splitChunk newline (PAT_SIZE - 1) stdin).1
  omega

theorem strip_terminated (text : List UInt8) : strip (text ++ [newline]) = text := by
  simp [strip]

theorem strip_of_not_mem {text : List UInt8} (h : newline ∉ text) : strip text = text := by
  rw [strip, if_neg]
  intro hlast
  exact h (List.mem_of_getLast? hlast)

theorem takeWhile_terminated {text : List UInt8} (h : newline ∉ text) :
    (text ++ [newline]).takeWhile (· != newline) = text := by
  rw [List.takeWhile_append, takeWhile_ne_of_not_mem h, if_pos rfl]
  simp

/-- A line that fits into a chunk without its newline is considered unless it is empty. -/
theorem considered_terminated (shell : ℕ → List UInt8 → Option (List UInt8 × BitVec 32))
    (s : State) {text rest : List UInt8} (htext : newline ∉ text)
    (h0 : (0 : UInt8) ∉ text ++ newline :: rest) (hlen : text.length ≤ PAT_SIZE - 1) :
    ∃ t, considered (run shell s (text ++ newline :: rest))
      = (if text = [] then [] else [text]) ++ considered (run shell t rest) := by
  have hline := splitLine_terminated htext rest
  obtain ⟨t, hconsidered⟩ := considered_cons shell s (by simp) h0
  by_cases hfits : text.length < PAT_SIZE - 1
  · -- the newline is part of the chunk
    have hchunk : splitChunk newline (PAT_SIZE - 1) (text ++ newline :: rest)
        = (text ++ [newline], rest) := by
      rw [splitChunk_of_le (by rw [hline]; simp; omega), hline]
    rw [hchunk, patternOf, strip_terminated] at hconsidered
    refine ⟨t, hconsidered.trans ?_⟩
    congr 1
    simp
  · -- the newline makes a chunk of its own, which is skipped
    have hchunk : splitChunk newline (PAT_SIZE - 1) (text ++ newline :: rest)
        = (text, newline :: rest) := by
      have hend : text.length = PAT_SIZE - 1 := by omega
      rw [splitChunk_of_lt (by rw [hline]; simp; omega), ← hend, List.take_left, List.drop_left]
    have hnewline : splitChunk newline (PAT_SIZE - 1) (newline :: rest) = ([newline], rest) :=
      if_pos rfl
    have h0' : (0 : UInt8) ∉ newline :: rest := fun hmem => h0 (List.mem_append_right _ hmem)
    obtain ⟨t', hconsidered'⟩ := considered_cons shell t (List.cons_ne_nil newline rest) h0'
    have hlong : ¬ text.length ≤ 1 := by
      have hsize : PAT_SIZE = 50 := rfl
      omega
    have hne : text ≠ [] := fun hnil => hlong (by rw [hnil]; simp)
    rw [hnewline] at hconsidered'
    rw [hchunk, hconsidered', patternOf, if_neg hlong, strip_of_not_mem htext] at hconsidered
    exact ⟨t', by rw [hconsidered, if_neg hne]; rfl⟩

/-- A last line without newline. -/
theorem considered_unterminated (shell : ℕ → List UInt8 → Option (List UInt8 × BitVec 32))
    (s : State) {text : List UInt8} (hne : text ≠ []) (h0 : (0 : UInt8) ∉ text)
    (htext : newline ∉ text) (hline : splitLine newline text = (text, []))
    (hlen : text.length ≤ PAT_SIZE - 1) :
    considered (run shell s text) = if text.length = 1 then [] else [text] := by
  have hpos := List.length_pos_of_ne_nil hne
  have hchunk : splitChunk newline (PAT_SIZE - 1) text = (text, []) := by
    rw [splitChunk_of_le (by rw [hline]; exact hlen), hline]
  obtain ⟨t, hconsidered⟩ := considered_cons shell s hne h0
  rw [hchunk] at hconsidered
  simp only [considered_nil, patternOf, strip_of_not_mem htext, List.append_nil] at hconsidered
  rw [hconsidered]
  by_cases hone : text.length = 1
  · rw [if_pos hone.le, if_pos hone]
  · rw [if_neg (by omega), if_neg hone]

/-- **Lines and patterns.** On an input without NUL the loop considers exactly the non-empty lines,
in order, if and only if no line is longer than `PAT_SIZE - 1` characters and the last one, if it
lacks its newline, is not a single character. -/
theorem lines_considered_iff (shell : ℕ → List UInt8 → Option (List UInt8 × BitVec 32)) (s : State)
    {stdin : List UInt8} (h : (0 : UInt8) ∉ stdin) :
    considered (run shell s stdin) = inputLines stdin ↔ Readable stdin := by
  -- over the lines: one that is too long settles the matter, any other leaves the rest
  induction hn : stdin.length using Nat.strong_induction_on generalizing s stdin with
  | _ n ih =>
      by_cases hne : stdin = []
      · subst hne
        rw [considered_nil]
        exact iff_of_true rfl (fun line hline => nomatch hline)
      by_cases hlong : PAT_SIZE - 1 < ((splitLine newline stdin).1.takeWhile (· != newline)).length
      · refine iff_of_false (considered_ne_of_long shell s hne h hlong) fun hreadable => ?_
        have hle := ((readable_cons hne).mp hreadable).1.1
        omega
      rw [readable_cons hne, inputLines_cons hne]
      rcases splitLine_cases newline stdin with ⟨text, rest, htext, hall, hline⟩ | ⟨hnot, hline⟩
      · rw [hline, takeWhile_terminated htext] at hlong
        rw [hline, lineOf, takeWhile_terminated htext]
        subst hall
        obtain ⟨t, hconsidered⟩ := considered_terminated shell s htext h (by omega)
        have hrest := ih rest.length (by rw [← hn]; simp; omega) t
          (fun hmem => h (by simp [hmem])) rfl
        have hunread : newline ∉ text ++ [newline] → (text ++ [newline]).length ≠ 1 :=
          fun hnot => absurd (by simp) hnot
        rw [hconsidered, List.append_cancel_left_eq, hrest]
        exact (and_iff_right ⟨by omega, hunread⟩).symm
      · have htake := takeWhile_ne_of_not_mem hnot
        rw [hline, htake, not_lt] at hlong
        rw [considered_unterminated shell s hne h hnot hline hlong, hline, lineOf, htake,
          if_neg hne]
        by_cases hone : stdin.length = 1
        · simp [hone, hnot]
        · have hreadable : Readable [] := fun line hmem => nomatch hmem
          have hlines : inputLines [] = [] := rfl
          simp [hone, hlong, hreadable, hlines]

/-- A line with one character. -/
theorem single_character_considered :
    considered (run (fun _ _ => none) ⟨fun _ => 0, fun _ => 0, 0⟩ (str "a\n"))
      = inputLines (str "a\n") :=
  (lines_considered_iff _ _ (by decide)).mpr (by unfold Readable; decide)

/-- Without its newline, it is skipped. -/
theorem single_character_skipped :
    ¬ ∀ (shell : ℕ → List UInt8 → Option (List UInt8 × BitVec 32)) (s : State)
      (stdin : List UInt8), (0 : UInt8) ∉ stdin →
        considered (run shell s stdin) = inputLines stdin := by
  intro h
  have hall := h (fun _ _ => none) ⟨fun _ => 0, fun _ => 0, 0⟩ (str "a") (by decide)
  rw [considered_unterminated _ _ (by decide) (by decide) (by decide) rfl (by decide)] at hall
  revert hall
  decide

end Tlpi.PopenGlob
