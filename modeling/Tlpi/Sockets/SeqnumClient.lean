import Tlpi.Sockets.SeqnumServer

set_option autoImplicit false

/-! # The TCP sequence-number client (sockets/net_stream_sock_seqnum_client.c)

The client sends its argument followed by a newline and displays the line it gets back. The two
directions of a session are taken separately. *Request*: the numeral passes through the client's
writes, the server's `readLine` with its 29 bytes, `atoi` and the check for negative lengths; the
server reserves the length the client asked for exactly under `LengthKept`. *Response*: the line
always arrives whole, and what is displayed is the server's counter exactly below `2 ^ 31`.
-/

namespace Tlpi.NetSeqnum

open Decimal Lines

/-- The outcomes of the client's system calls after it has connected. -/
structure ClientEnv where
  /-- What the two calls of `write` report, `none` for `-1`. -/
  writeReq : Option ℕ
  writeNewline : Option ℕ
  /-- The results of the reads on the connection. -/
  input : Stream

/-- A run of the client: the bytes it handed to the connection, what it printed on standard output
and standard error, and whether it exits with `EXIT_SUCCESS`. -/
structure ClientRun where
  sent : List UInt8
  stdout : List UInt8
  perror : List UInt8
  success : Bool
deriving DecidableEq, Repr

/-- The client from the sending of the request on; `arg` is `argv[2]` if there is one and
`seqNumStr` the uninitialised buffer. -/
def client (arg : Option (List UInt8)) (env : ClientEnv) (seqNumStr : Mem) : ClientRun :=
  let reqLenStr := arg.getD (str "1")
  if env.writeReq ≠ some reqLenStr.length then
    ⟨reqLenStr.take (env.writeReq.getD 0), [],
      str "Partial/failed write to the server (reqLenStr)", false⟩
  else if env.writeNewline ≠ some 1 then
    ⟨reqLenStr, [], str "Partial/failed write to the server (newLine)", false⟩
  else
    let sent := reqLenStr ++ [newline]
    let line := readLine env.input (some seqNumStr) INT_LEN
    if line.ret = -1 then ⟨sent, [], str "readLine", false⟩
    else if line.ret = 0 then ⟨sent, [], str "FATAL: Unexpected EOF from the server", false⟩
    else
      ⟨sent, str "Sequence Number (recvd from server): "
        ++ (line.buffer.getD seqNumStr).cString INT_LEN, [], true⟩

/-- Both writes of the request succeed in full. -/
def ClientEnv.Sends (env : ClientEnv) (arg : List UInt8) : Prop :=
  env.writeReq = some arg.length ∧ env.writeNewline = some 1

theorem client_sent {arg : List UInt8} {env : ClientEnv} (h : env.Sends arg) (mem : Mem) :
    (client (some arg) env mem).sent = arg ++ [newline] := by
  unfold client
  simp only [Option.getD_some, h.1, h.2, ne_eq, not_true_eq_false, if_false]
  split
  · rfl
  · split <;> rfl

/-! ## One line -/

theorem splitLine_concat {text : List UInt8} (hnl : newline ∉ text) :
    splitLine newline (text ++ [newline]) = (text ++ [newline], []) := by
  induction text with
  | nil => rfl
  | cons c text ih =>
      have hc : c ≠ newline := fun h => hnl (by simp [h])
      rw [List.cons_append, splitLine, if_neg hc, ih (fun h => hnl (by simp [h]))]

theorem not_mem_of_isDigit {cs : List UInt8} (h : cs.all isDigit = true) {c : UInt8}
    (hc : isDigit c = false) : c ∉ cs := by
  intro hmem
  have := List.all_eq_true.mp h c hmem
  rw [hc] at this
  cases this

/-- A line of at most `n - 1` bytes without NUL that is all a stream delivers is read whole. -/
theorem readLine_whole {fd : Stream} (hfd : fd.Clean) {text : List UInt8}
    (hdata : fd.data = text ++ [newline]) (hnl : newline ∉ text) (hnul : (0 : UInt8) ∉ text)
    {n : ℕ} (hn : text.length + 1 < n) (buf : Mem) :
    (readLine fd (some buf) n).ret = text.length + 1
    ∧ ((readLine fd (some buf) n).buffer.getD buf).cString n = text ++ [newline] := by
  have hline : (splitLine newline fd.data).1 = text ++ [newline] := by
    rw [hdata, splitLine_concat hnl]
  have hkept : keptLine n fd.data = text ++ [newline] := by
    rw [keptLine, hline, List.take_of_length_le (by simp; omega)]
  have hret : (readLine fd (some buf) n).ret = text.length + 1 := by
    rw [readLine_clean hfd (by simp [hdata]) (by omega) buf, hkept]
    simp [terminate]
  refine ⟨hret, ?_⟩
  rw [readLine_cString (by omega), (scanLine_clean hfd).1, ← keptLine, hkept]
  refine takeWhile_of_no_nul fun h => ?_
  rcases List.mem_append.mp h with h | h
  · exact hnul h
  · exact absurd (List.mem_singleton.mp h) (by decide)

/-! ## The request -/

/-- The part of the argument that reaches `atoi`. -/
def keptDigits (arg : List UInt8) : List UInt8 := arg.take (INT_LEN - 1)

/-- The arguments on which client and server agree. With `w` the number denoted by the first 29
digits: the server refuses `w`, or `w` is a non-negative `int` and nothing of a nonzero number was
cut off. -/
def LengthKept (arg : List UInt8) : Prop :=
  2 ^ 63 ≤ value 10 (keptDigits arg) ∨ 2 ^ 31 ≤ value 10 (keptDigits arg) % 2 ^ 32
  ∨ (value 10 (keptDigits arg) < 2 ^ 31 ∧ (arg.length ≤ INT_LEN - 1 ∨ value 10 arg = 0))

instance (arg : List UInt8) : Decidable (LengthKept arg) := inferInstanceAs (Decidable (_ ∨ _ ∨ _))

/-- Client and server agree on the length `v`: the server answers with a start and reserves `v`
numbers, or it answers nothing and keeps its counter. -/
def LengthAgrees (s s' : Server) (v : ℕ) : Prop :=
  (∃ g : Grant, s'.granted = s.granted ++ [g] ∧ s'.writes = s.writes ++ [g.seqNumStr]
    ∧ g.seqNum = s.seqNum ∧ g.reqLen.toInt = v ∧ s'.seqNum = s.seqNum + BitVec.ofNat 32 v)
  ∨ (s'.granted = s.granted ∧ s'.writes = s.writes ∧ s'.seqNum = s.seqNum)

theorem keptDigits_all {arg : List UInt8} (hdig : arg.all isDigit = true) :
    (keptDigits arg).all isDigit = true := by
  rw [List.all_eq_true] at hdig ⊢
  exact fun c hc => hdig c (List.mem_of_mem_take hc)

/-- The C string the server passes to `atoi`: the first 29 digits, and the newline if there is
room for it. -/
theorem request_text {fd : Stream} {arg : List UInt8} (hdig : arg.all isDigit = true)
    (hclean : fd.Clean) (hdata : fd.data = arg ++ [newline]) :
    ((scanLine fd).line.take (INT_LEN - 1)).takeWhile (· != 0)
      = keptDigits arg ++ [newline].take (INT_LEN - 1 - arg.length) := by
  have hnl : newline ∉ arg := not_mem_of_isDigit hdig (by decide)
  have hnul : (0 : UInt8) ∉ arg := not_mem_of_isDigit hdig (by decide)
  rw [(scanLine_clean hclean).1, hdata, splitLine_concat hnl, List.take_append, ← keptDigits]
  refine takeWhile_of_no_nul fun h => ?_
  rcases List.mem_append.mp h with h | h
  · exact hnul (List.mem_of_mem_take h)
  · exact absurd (List.mem_singleton.mp (List.mem_of_mem_take h)) (by decide)

/-- What the server makes of a numeral: the first 29 digits count. -/
theorem request?_numeral {c : Connection} (hacc : c.accept ≠ none) {arg : List UInt8}
    (hdig : arg.all isDigit = true) (hne : arg ≠ []) (hclean : c.input.Clean)
    (hdata : c.input.data = arg ++ [newline]) :
    c.request? =
      if 2 ^ 63 ≤ value 10 (keptDigits arg) ∨ 2 ^ 31 ≤ value 10 (keptDigits arg) % 2 ^ 32 then none
      else some (BitVec.ofNat 32 (value 10 (keptDigits arg))) := by
  have hpos : 0 < (readLine c.input (some fun _ => 0) INT_LEN).ret := by
    rw [readLine_clean hclean (by simp [hdata]) (by decide) _]
    exact Int.natCast_pos.mpr (keptLine_length_pos (by decide) (by simp [hdata]))
  have hkne : keptDigits arg ≠ [] := by
    simpa [keptDigits, INT_LEN] using hne
  have hrest : ∀ d ∈ ([newline].take (INT_LEN - 1 - arg.length)).head?, isDigit d = false := by
    intro d hd
    rw [List.mem_singleton.mp (List.mem_of_mem_take (List.mem_of_mem_head? hd))]
    decide
  have hint := atoi_digits_toInt (keptDigits_all hdig) hkne hrest
  simp only [Connection.request?, hacc, false_or]
  rw [readLine_cString hpos, request_text hdig hclean hdata]
  set r := atoi (keptDigits arg ++ [newline].take (INT_LEN - 1 - arg.length)) with hr
  set w := value 10 (keptDigits arg) with hw
  have hbmod : (w : ℤ).bmod (2 ^ 32)
      = if w % 2 ^ 32 < 2 ^ 31 then ((w % 2 ^ 32 : ℕ) : ℤ)
        else ((w % 2 ^ 32 : ℕ) : ℤ) - 2 ^ 32 := by
    rw [Int.bmod_def]
    push_cast
    split <;> split <;> omega
  by_cases hbig : 2 ^ 63 ≤ w
  · rw [if_neg (by omega)] at hint
    rw [if_pos (by omega), if_pos (Or.inl hbig)]
  · rw [if_pos (by omega), hbmod] at hint
    by_cases hneg : 2 ^ 31 ≤ w % 2 ^ 32
    · rw [if_neg (by omega)] at hint
      rw [if_pos (by omega), if_pos (Or.inr hneg)]
    · rw [if_pos (by omega)] at hint
      rw [if_neg (by omega), if_neg (by omega), Option.some.injEq]
      refine BitVec.eq_of_toInt_eq ?_
      rw [hint, BitVec.toInt_ofNat', hbmod, if_pos (by omega)]

/-- The 29 digits that are kept denote the whole number only if nothing, or only zeros, follow. -/
theorem value_keptDigits_eq_iff {arg : List UInt8} (hdig : arg.all isDigit = true) :
    value 10 (keptDigits arg) = value 10 arg ↔ arg.length ≤ INT_LEN - 1 ∨ value 10 arg = 0 := by
  constructor
  · intro h
    by_contra hcon
    push Not at hcon
    rw [keptDigits, value_take hdig] at h
    have hlt := Nat.div_lt_self (Nat.pos_of_ne_zero hcon.2)
      (show 1 < 10 ^ (arg.length - (INT_LEN - 1)) from
        Nat.one_lt_pow (by omega) (by norm_num))
    omega
  · rintro (h | h)
    · rw [keptDigits, List.take_of_length_le h]
    · rw [keptDigits, value_take hdig, h, Nat.zero_div]

theorem value_keptDigits_le {arg : List UInt8} (hdig : arg.all isDigit = true) :
    value 10 (keptDigits arg) ≤ value 10 arg := by
  rw [keptDigits, value_take hdig]
  exact Nat.div_le_self _ _

/-- **Client and server agree on the length exactly under `LengthKept`**, for every argument that
is a string of digits, from every state of the server and wherever its reads are interrupted. -/
theorem length_agrees_iff {s : Server} (hs : s.exited = false) {c : Connection}
    (hacc : c.accept ≠ none) {arg : List UInt8} (hdig : arg.all isDigit = true) (hne : arg ≠ [])
    {env : ClientEnv} (henv : env.Sends arg) (mem : Mem) (hclean : c.input.Clean)
    (hdata : c.input.data = (client (some arg) env mem).sent) :
    LengthAgrees s (pass s c) (value 10 arg) ↔ LengthKept arg := by
  rw [client_sent henv] at hdata
  have hreq := request?_numeral hacc hdig hne hclean hdata
  have heq := value_keptDigits_eq_iff hdig
  have hle := value_keptDigits_le hdig
  unfold LengthKept
  obtain ⟨hnone, hseq, hgr, hwr, -⟩ | ⟨r, hsome, hr, hseq, hgr, hwr, -⟩ := pass_cases s c hs
  · -- refused: nothing is answered and nothing is reserved
    have hrefused : 2 ^ 63 ≤ value 10 (keptDigits arg)
        ∨ 2 ^ 31 ≤ value 10 (keptDigits arg) % 2 ^ 32 := by
      by_contra hcon
      rw [if_neg hcon, hnone] at hreq
      cases hreq
    exact ⟨fun _ => by tauto, fun _ => Or.inr ⟨hgr, hwr, hseq⟩⟩
  · rw [hsome] at hreq
    split at hreq
    · cases hreq
    rename_i hacc'
    push Not at hacc'
    have hrval : r = BitVec.ofNat 32 (value 10 (keptDigits arg)) := Option.some.inj hreq
    have hrint : r.toInt = ((value 10 (keptDigits arg) % 2 ^ 32 : ℕ) : ℤ) := by
      rw [toInt_eq_toNat_of_nonneg hr, hrval, BitVec.toNat_ofNat]
    constructor
    · rintro (⟨g, hg, -, -, hlen, -⟩ | ⟨hg, -⟩)
      · have hglast : g = ⟨s.seqNum, r, formatSeqNum s.seqNum⟩ := by
          simpa using hg.symm.trans hgr
        rw [hglast, hrint] at hlen
        -- the narrowed prefix is the whole number, so neither the cut nor the narrowing lost a bit
        have hval : value 10 (keptDigits arg) = value 10 arg := by omega
        exact Or.inr (Or.inr ⟨by omega, heq.mp hval⟩)
      · rw [hgr] at hg
        simp at hg
    · rintro (h | h | ⟨hlt, h⟩)
      · omega
      · omega
      · have hval := heq.mpr h
        refine Or.inl ⟨⟨s.seqNum, r, formatSeqNum s.seqNum⟩, hgr, hwr, rfl, ?_, ?_⟩
        · rw [hrint]
          omega
        · rw [hseq, hrval, hval]

/-- A connection on which the bytes `data` arrive and nothing fails. -/
def plainConnection (data : List UInt8) : Connection :=
  ⟨some 4, none, data.map ReadResult.byte, some 2, true⟩

theorem length_agrees_twelve :
    LengthAgrees (start 7 fun _ => 0) (pass (start 7 fun _ => 0) (plainConnection (str "12\n")))
      (value 10 (str "12")) := by
  have henv : (ClientEnv.mk (some 2) (some 1) []).Sends (str "12") := ⟨rfl, rfl⟩
  exact (length_agrees_iff rfl (by decide) (by decide) (by decide) henv (fun _ => 0) (by decide)
    (by decide)).mpr (by decide)

/-- Twenty-nine zeros and a five: the server keeps the zeros, answers, and reserves nothing. -/
def zerosAndFive : List UInt8 := List.replicate 29 48 ++ [53]

theorem length_differs_zerosAndFive :
    value 10 zerosAndFive = 5 ∧ ¬ LengthAgrees (start 7 fun _ => 0)
      (pass (start 7 fun _ => 0) (plainConnection (zerosAndFive ++ [newline]))) 5 := by
  have hgr : (pass (start 7 fun _ => 0) (plainConnection (zerosAndFive ++ [newline]))).granted
      = [⟨7, 0, str "7\n"⟩] := by decide
  refine ⟨by decide, ?_⟩
  rintro (⟨g, hg, -, -, hlen, -⟩ | ⟨hg, -⟩)
  · have hglast : g = ⟨7, 0, str "7\n"⟩ := by
      simpa [start] using hg.symm.trans hgr
    rw [hglast] at hlen
    revert hlen
    decide
  · rw [hgr] at hg
    cases hg

/-! ## The response -/

/-- The line the server sends arrives and is displayed as the counter it was formatted from: the
text is not cut by `INT_LEN`, the client's `readLine` delivers it whole, and the numeral displayed
denotes the unsigned `seqNum`. -/
structure ResponseExact (seqNum : BitVec 32) (arg : Option (List UInt8)) (env : ClientEnv)
    (mem : Mem) : Prop where
  untruncated : formatSeqNum seqNum = intNumeral seqNum.toInt ++ [newline]
  whole : (readLine env.input (some mem) INT_LEN).ret = (formatSeqNum seqNum).length
    ∧ ((readLine env.input (some mem) INT_LEN).buffer.getD mem).cString INT_LEN
        = formatSeqNum seqNum
  displayed : ∃ num, (client arg env mem).stdout
      = str "Sequence Number (recvd from server): " ++ (num ++ [newline])
    ∧ intValue? num = some (seqNum.toNat : ℤ)

/-- The line arrives whole, for every value of the counter. -/
theorem response_whole {seqNum : BitVec 32} {fd : Stream} (hclean : fd.Clean)
    (hdata : fd.data = formatSeqNum seqNum) (mem : Mem) :
    (readLine fd (some mem) INT_LEN).ret = (formatSeqNum seqNum).length
    ∧ ((readLine fd (some mem) INT_LEN).buffer.getD mem).cString INT_LEN
        = formatSeqNum seqNum := by
  have hno : ∀ c : UInt8, c ≠ minus → isDigit c = false → c ∉ intNumeral seqNum.toInt := by
    intro c hm hd hc
    rcases mem_intNumeral hc with h | h
    · exact hm h
    · rw [hd] at h
      cases h
  rw [formatSeqNum_eq] at hdata ⊢
  obtain ⟨hret, hstr⟩ := readLine_whole hclean hdata (hno newline (by decide) (by decide))
    (hno 0 (by decide) (by decide)) (seqNum_numeral_length seqNum) mem
  refine ⟨?_, hstr⟩
  rw [hret, List.length_append, List.length_singleton]
  push_cast
  rfl

/-- **The response is exact below `2 ^ 31` and nowhere else.** -/
theorem response_exact_iff (seqNum : BitVec 32) {arg : List UInt8} {env : ClientEnv}
    (henv : env.Sends arg) (hclean : env.input.Clean)
    (hdata : env.input.data = formatSeqNum seqNum) (mem : Mem) :
    ResponseExact seqNum (some arg) env mem ↔ seqNum.toNat < 2 ^ 31 := by
  have hwhole := response_whole hclean hdata mem
  have hout : (client (some arg) env mem).stdout
      = str "Sequence Number (recvd from server): " ++ (intNumeral seqNum.toInt ++ [newline]) := by
    have hlen : 0 < (formatSeqNum seqNum).length := by
      rw [formatSeqNum_eq, List.length_append, List.length_singleton]
      omega
    unfold client
    simp only [Option.getD_some, henv.1, henv.2, ne_eq, not_true_eq_false, if_false]
    rw [if_neg (by rw [hwhole.1]; omega), if_neg (by rw [hwhole.1]; omega), hwhole.2,
      formatSeqNum_eq]
  have hint : seqNum.toInt = seqNum.toNat ↔ seqNum.toNat < 2 ^ 31 := by
    have hlt := seqNum.isLt
    rw [BitVec.toInt_eq_toNat_cond]
    split <;> omega
  constructor
  · rintro ⟨-, -, num, hnum, hval⟩
    have hnum' : num = intNumeral seqNum.toInt := by
      rw [hout] at hnum
      exact (List.append_cancel_right (List.append_cancel_left hnum)).symm
    rw [hnum', intValue?_intNumeral, Option.some.injEq] at hval
    exact hint.mp hval
  · intro hlt
    refine ⟨formatSeqNum_eq seqNum, hwhole, _, hout, ?_⟩
    rw [intValue?_intNumeral, hint.mpr hlt]

/-- A session in which the client asks for one number and the bytes `data` come back. -/
def plainEnv (data : List UInt8) : ClientEnv := ⟨some 1, some 1, data.map ReadResult.byte⟩

theorem response_exact_fortyTwo :
    ResponseExact 42 (some (str "1")) (plainEnv (str "42\n")) fun _ => 0 := by
  have henv : (plainEnv (str "42\n")).Sends (str "1") := ⟨rfl, rfl⟩
  exact (response_exact_iff 42 henv (by decide) (by decide) fun _ => 0).mpr (by decide)

/-- From `2 ^ 31` on the client displays a negative number. -/
theorem response_negative :
    ¬ ResponseExact 0x80000000 (some (str "1")) (plainEnv (formatSeqNum 0x80000000))
      fun _ => 0 := by
  rintro ⟨-, -, num, hnum, hval⟩
  have hout : (client (some (str "1")) (plainEnv (formatSeqNum 0x80000000)) fun _ => 0).stdout
      = str "Sequence Number (recvd from server): " ++ (str "-2147483648" ++ [newline]) := by
    decide
  rw [hout] at hnum
  obtain rfl : str "-2147483648" = num :=
    List.append_cancel_right (List.append_cancel_left hnum)
  revert hval
  decide

end Tlpi.NetSeqnum
