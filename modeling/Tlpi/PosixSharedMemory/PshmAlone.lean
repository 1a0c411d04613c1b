import Tlpi.PosixSharedMemory.PshmCommands

set_option autoImplicit false

/-! # A shared memory command that runs alone

`Pshm.pshmWrite` and `Pshm.pshmRead` describe one call of a program from its start to its end, with
the object as a list of bytes. Here they are compared with the processes of `PshmCommands`: whatever
calls fail, there is a run of the process, without a step of another one, to this end, and such a
run has no other end.
-/

namespace Tlpi.PshmCommands

open Decimal Pshm

variable {page p o : ℕ} {g : ShmFs} {m : MemObj} {argv0 name s : List UInt8}

/-! ## The object as a list of bytes -/

theorem contents_length (m : MemObj) : m.contents.length = m.size := Mem.bytes_length _ _

theorem contents_getElem? {i : ℕ} (h : i < m.size) : m.contents[i]? = some (m.byte i) := by
  rw [List.getElem?_eq_getElem (by rwa [contents_length])]
  simp [MemObj.contents, Mem.bytes]

/-- `ftruncate` on the bytes. -/
theorem contents_ftruncate (m : MemObj) (len : ℕ) :
    (m.ftruncate len false).contents = ftruncate m.contents len := by
  refine List.ext_getElem? fun i => ?_
  by_cases hi : i < len
  · rw [contents_getElem? (show i < (m.ftruncate len false).size from hi), ftruncate]
    by_cases hsize : i < m.size
    · rw [List.getElem?_append_left (by rw [List.length_take, contents_length]; omega),
        List.getElem?_take_of_lt hi, contents_getElem? hsize]
      simp [MemObj.ftruncate, hi, hsize]
    · rw [List.getElem?_append_right (by rw [List.length_take, contents_length]; omega),
        List.length_take, contents_length, List.getElem?_replicate, if_pos (by omega)]
      simp [MemObj.ftruncate, hsize]
  · have hlen : (m.ftruncate len false).contents.length = len := contents_length _
    rw [List.getElem?_eq_none (by omega), List.getElem?_eq_none (by rw [length_ftruncate]; omega)]

/-! ## `pshm_write` -/

/-- A `pshm_write` process that has opened the object `o`. -/
def writer (argv0 name s : List UInt8) (o : ℕ) (pc : Pc) (out : List UInt8) : Proc :=
  ⟨.write, [argv0, name, s], pc, some o, out⟩

section

variable (argv0 name s)

theorem exec_open (hname : name ≠ str "--help") (ho : g.names name = some o) :
    (pshm page).exec p g ((pshm page).spawn ⟨.write, [argv0, name, s]⟩) (.go false) =
      some (g, writer argv0 name s o .opened []) := by
  simp [pshm, exec, go, openShm, Proc.badArgs, Proc.name, ShmFs.shmOpen, hname, ho, writer]

theorem exec_resize (out : List UInt8) (hm : g.objs[o]? = some m) :
    (pshm page).exec p g (writer argv0 name s o .opened out) (.go false) =
      some (g.set o (m.ftruncate s.length false),
        writer argv0 name s o (.sized s.length) (out ++ resizedText s.length)) := by
  simp [pshm, exec, go, Proc.object, writer, hm, setSize, resize, Proc.string]

theorem exec_map (out : List UInt8) {len : ℕ} (hlen : 0 < len) :
    (pshm page).exec p g (writer argv0 name s o (.sized len) out) (.go false) =
      some (g, writer argv0 name s o (.mapped len) out) := by
  simp [pshm, exec, go, mapObject, mmap, hlen, writer]

theorem exec_map_empty (out : List UInt8) :
    (pshm page).exec p g (writer argv0 name s o (.sized 0) out) (.go false) =
      some (g, writer argv0 name s o (.exited EXIT_FAILURE) out) := by
  simp [pshm, exec, go, mapObject, mmap, writer, Proc.exit]

theorem exec_close (out : List UInt8) (len : ℕ) :
    (pshm page).exec p g (writer argv0 name s o (.mapped len) out) (.go false) =
      some (g, writer argv0 name s o (.copying (List.range len)) (out ++ copyingText len)) := by
  simp [pshm, exec, go, closeFd, writer]

theorem exec_store (out : List UInt8) {left : List ℕ} {k : ℕ} (hk : k < s.length)
    (hm : g.objs[o]? = some m) (hsize : m.size = s.length) :
    (pshm page).exec p g (writer argv0 name s o (.copying left) out) (.store k) =
      some (g.set o (m.store k s[k]), writer argv0 name s o (.copying (left.erase k)) out) := by
  have hpage : m.hasPage page k = true := MemObj.hasPage_of_lt page (hsize ▸ hk)
  simp [pshm, exec, Proc.object, writer, hm, storeByte, Proc.string, hk, hpage]

theorem exec_copied (out : List UInt8) :
    (pshm page).exec p g (writer argv0 name s o (.copying []) out) (.go false) =
      some (g, writer argv0 name s o (.exited EXIT_SUCCESS) out) := by
  simp [pshm, exec, go, writer, Proc.exit]

/-- A call fails before the bytes are copied. -/
theorem exec_fail (out : List UInt8) {pc : Pc} (hpc : pc.early = true) :
    (pshm page).exec p g (writer argv0 name s o pc out) .fail =
      some (g, writer argv0 name s o (.exited EXIT_FAILURE) out) := by
  cases pc with
  | start => rfl
  | opened => rfl
  | sized len => rfl
  | mapped len => rfl
  | _ => cases hpc

end

variable (page p argv0 name) in
/-- `memcpy`, byte by byte. -/
theorem alone_stores (out : List UInt8) {ks : List ℕ} (hks : ∀ k ∈ ks, k < s.length)
    (hm : g.objs[o]? = some m) (hsize : m.size = s.length) :
    ∃ g' m', (pshm page).alone p g (writer argv0 name s o (.copying ks) out) (ks.map .store) =
        some (g', writer argv0 name s o (.copying []) out) ∧
      g'.objs[o]? = some m' ∧ m'.size = s.length ∧
      ∀ i c, s[i]? = some c → i ∈ ks ∨ m.byte i = c → m'.byte i = c := by
  induction ks generalizing g m with
  | nil => exact ⟨g, m, rfl, hm, hsize, fun i c _ h => h.resolve_left List.not_mem_nil⟩
  | cons k ks ih =>
      have hk := hks k List.mem_cons_self
      obtain ⟨hlt, -⟩ := List.getElem?_eq_some_iff.mp hm
      obtain ⟨g', m', halone, hm', hsize', hbytes⟩ := ih (g := g.set o (m.store k s[k]))
        (m := m.store k s[k]) (fun j hj => hks j (List.mem_cons_of_mem k hj))
        (List.getElem?_set_self hlt) hsize
      refine ⟨g', m', ?_, hm', hsize', fun i c hc h => hbytes i c hc ?_⟩
      · rw [List.map_cons, Crowd.alone_cons (exec_store argv0 name s out hk hm hsize),
          List.erase_cons_head]
        exact halone
      · rcases m.store_byte_cases k i s[k] with ⟨rfl, hnew⟩ | ⟨hne, hsame⟩
        · rw [List.getElem?_eq_getElem hk] at hc
          exact Or.inr (hnew.trans (Option.some.inj hc))
        · rcases h with hmem | hbyte
          · exact Or.inl ((List.mem_cons.mp hmem).resolve_left hne)
          · exact Or.inr (hsame.trans hbyte)

/-- The end of a process that runs alone: its status, its output and the object. -/
def Ends (page p : ℕ) (g : ShmFs) (x : Proc) (o : ℕ) (r : Result) : Prop :=
  ∃ cs g' y m', (pshm page).alone p g x cs = some (g', y) ∧ y.pc = .exited r.status ∧
    y.out = r.stdout ∧ g'.objs[o]? = some m' ∧ m'.contents = r.object

theorem Ends.exit {x : Proc} {r : Result} (hm : g.objs[o]? = some m)
    (hpc : x.pc = .exited r.status) (hout : x.out = r.stdout) (hobject : m.contents = r.object) :
    Ends page p g x o r := ⟨[], g, x, m, rfl, hpc, hout, hm, hobject⟩

/-- The process takes a step before. -/
theorem Ends.cons {x y : Proc} {g' : ShmFs} {r : Result} {c : Call}
    (hexec : (pshm page).exec p g x c = some (g', y)) (h : Ends page p g' y o r) :
    Ends page p g x o r := by
  obtain ⟨cs, g'', z, m', halone, hend⟩ := h
  refine ⟨c :: cs, g'', z, m', ?_, hend⟩
  rw [Crowd.alone_cons hexec]
  exact halone

/-- The rest of a `pshm_write` process in `memcpy`. -/
theorem Ends.copied (out : List UInt8) (hm : g.objs[o]? = some m) (hsize : m.size = s.length) :
    Ends page p g (writer argv0 name s o (.copying (List.range s.length)) out) o
      ⟨EXIT_SUCCESS, out, [], s⟩ := by
  obtain ⟨g', m', halone, hm', hsize', hbytes⟩ := alone_stores page p argv0 name out
    (fun k hk => List.mem_range.mp hk) hm hsize
  have hholds : m'.Holds s := ⟨hsize', fun i c hc => by
    obtain ⟨hlt, -⟩ := List.getElem?_eq_some_iff.mp hc
    exact hbytes i c hc (Or.inl (List.mem_range.mpr hlt))⟩
  refine ⟨(List.range s.length).map .store ++ [.go false], g',
    writer argv0 name s o (.exited EXIT_SUCCESS) out, m', ?_, rfl, rfl, hm', hholds.contents⟩
  rw [Crowd.alone_append, halone, Option.bind_some,
    Crowd.alone_cons (exec_copied argv0 name s out)]
  rfl

theorem pshmWrite_ends (calls : WriteCalls) (ho : g.names name = some o)
    (hm : g.objs[o]? = some m) :
    Ends page p g ((pshm page).spawn ⟨.write, [argv0, name, s]⟩) o
      (pshmWrite [argv0, name, s] calls m.contents) := by
  obtain ⟨hlt, -⟩ := List.getElem?_eq_some_iff.mp hm
  obtain ⟨shmOpenOk, ftruncateOk, mmapOk, closeOk⟩ := calls
  simp only [pshmWrite]
  by_cases hname : name = str "--help"
  · rw [if_pos hname]
    refine .cons (c := .go false)
      (y := ((pshm page).spawn ⟨.write, [argv0, name, s]⟩).exit EXIT_FAILURE) ?_
      (.exit hm rfl rfl rfl)
    simp [pshm, exec, go, openShm, Proc.badArgs, hname]
  rw [if_neg hname]
  cases shmOpenOk with
  | false => exact .cons (c := .fail) rfl (.exit hm rfl rfl rfl)
  | true =>
  rw [if_neg (by decide)]
  refine .cons (exec_open argv0 name s hname ho) ?_
  cases ftruncateOk with
  | false => exact .cons (exec_fail argv0 name s [] rfl) (.exit hm rfl rfl rfl)
  | true =>
  rw [if_neg (by decide)]
  have hm' : (g.set o (m.ftruncate s.length false)).objs[o]? = some (m.ftruncate s.length false) :=
    List.getElem?_set_self hlt
  refine .cons (exec_resize argv0 name s [] hm) ?_
  by_cases hempty : s.length = 0
  · -- A mapping without bytes is refused.
    rw [hempty] at hm' ⊢
    rw [if_pos (by simp [mmap])]
    exact .cons (exec_map_empty argv0 name s _) (.exit hm' rfl rfl (contents_ftruncate m 0))
  have hpos : 0 < s.length := Nat.pos_of_ne_zero hempty
  cases mmapOk with
  | false =>
      rw [if_pos (by simp [mmap])]
      exact .cons (exec_fail argv0 name s _ rfl) (.exit hm' rfl rfl (contents_ftruncate m _))
  | true =>
  rw [if_neg (by simp [mmap, hpos])]
  refine .cons (exec_map argv0 name s _ hpos) ?_
  cases closeOk with
  | false =>
      rw [if_pos rfl]
      exact .cons (exec_fail argv0 name s _ rfl) (.exit hm' rfl rfl (contents_ftruncate m _))
  | true =>
  rw [if_neg (by decide)]
  refine .cons (exec_close argv0 name s _ _) ?_
  have hresult : memcpy (ftruncate m.contents s.length) s s.length = s :=
    memcpy_ftruncate s m.contents
  rw [hresult]
  exact .copied _ hm' rfl

/-! ## `pshm_read` -/

/-- A `pshm_read` process that has opened the object `o`. -/
def reader (argv0 name : List UInt8) (o : ℕ) (pc : Pc) (out : List UInt8) : Proc :=
  ⟨.read, [argv0, name], pc, some o, out⟩

section

variable (argv0 name)

theorem exec_open_read (hname : name ≠ str "--help") (ho : g.names name = some o) :
    (pshm page).exec p g ((pshm page).spawn ⟨.read, [argv0, name]⟩) (.go false) =
      some (g, reader argv0 name o .opened []) := by
  simp [pshm, exec, go, openShm, Proc.badArgs, Proc.name, ShmFs.shmOpen, hname, ho, reader]

theorem exec_fstat (hm : g.objs[o]? = some m) :
    (pshm page).exec p g (reader argv0 name o .opened []) (.go false) =
      some (g, reader argv0 name o (.sized m.size) []) := by
  simp [pshm, exec, go, Proc.object, reader, hm, setSize]

theorem exec_map_read {len : ℕ} (hlen : 0 < len) :
    (pshm page).exec p g (reader argv0 name o (.sized len) []) (.go false) =
      some (g, reader argv0 name o (.mapped len) []) := by
  simp [pshm, exec, go, mapObject, mmap, hlen, reader]

/-- `write` writes one byte more. -/
theorem exec_byte {n : ℕ} (hm : g.objs[o]? = some m) (hlt : n < m.size) :
    (pshm page).exec p g (reader argv0 name o (.writing m.size) (m.contents.take n)) (.go false) =
      some (g, reader argv0 name o (.writing m.size) (m.contents.take (n + 1))) := by
  have hlength : (m.contents.take n).length = n := by
    rw [List.length_take, contents_length]
    omega
  rw [List.take_add_one, contents_getElem? hlt]
  simp [pshm, exec, go, Proc.object, reader, hm, writeByte, hlength, hlt,
    MemObj.hasPage_of_lt page hlt]

end

/-- `write` writes the first `n` bytes. -/
theorem alone_bytes {n : ℕ} (hm : g.objs[o]? = some m) (hn : n ≤ m.size) :
    (pshm page).alone p g (reader argv0 name o (.writing m.size) [])
        (List.replicate n (.go false)) =
      some (g, reader argv0 name o (.writing m.size) (m.contents.take n)) := by
  induction n with
  | zero => rfl
  | succ n ih =>
      rw [List.replicate_succ', Crowd.alone_append, ih (by omega), Option.bind_some,
        Crowd.alone_cons (exec_byte argv0 name hm (by omega))]
      rfl

theorem Ends.written (n : ℕ) (hm : g.objs[o]? = some m) :
    Ends page p g (reader argv0 name o (.writing m.size) []) o
      ⟨EXIT_SUCCESS, m.contents.take n ++ str "\n", [], m.contents⟩ := by
  have htake : m.contents.take (min n m.size) = m.contents.take n := by
    rw [← contents_length, ← List.take_take, List.take_length]
  refine ⟨List.replicate (min n m.size) (.go false) ++ [.fail], g,
    reader argv0 name o (.exited EXIT_SUCCESS) (m.contents.take n ++ str "\n"), m, ?_, rfl, rfl, hm,
    rfl⟩
  rw [Crowd.alone_append, alone_bytes hm (min_le_right _ _), Option.bind_some, htake]
  rfl

theorem pshmRead_ends (calls : ReadCalls) (ho : g.names name = some o) (hm : g.objs[o]? = some m) :
    Ends page p g ((pshm page).spawn ⟨.read, [argv0, name]⟩) o
      (pshmRead [argv0, name] calls m.contents) := by
  obtain ⟨shmOpenOk, fstatOk, mmapOk, closeOk, written⟩ := calls
  simp only [pshmRead]
  by_cases hname : name = str "--help"
  · rw [if_pos hname]
    refine .cons (c := .go false)
      (y := ((pshm page).spawn ⟨.read, [argv0, name]⟩).exit EXIT_FAILURE) ?_ (.exit hm rfl rfl rfl)
    simp [pshm, exec, go, openShm, Proc.badArgs, hname]
  rw [if_neg hname]
  cases shmOpenOk with
  | false => exact .cons (c := .fail) rfl (.exit hm rfl rfl rfl)
  | true =>
  rw [if_neg (by decide)]
  refine .cons (exec_open_read argv0 name hname ho) ?_
  cases fstatOk with
  | false => exact .cons (c := .fail) rfl (.exit hm rfl rfl rfl)
  | true =>
  rw [if_neg (by decide)]
  refine .cons (exec_fstat argv0 name hm) ?_
  rw [contents_length]
  by_cases hempty : m.size = 0
  · rw [hempty, if_pos (by simp [mmap])]
    exact .cons (c := .go false) rfl (.exit hm rfl rfl rfl)
  have hpos : 0 < m.size := Nat.pos_of_ne_zero hempty
  cases mmapOk with
  | false =>
      rw [if_pos (by simp [mmap])]
      exact .cons (c := .fail) rfl (.exit hm rfl rfl rfl)
  | true =>
  rw [if_neg (by simp [mmap, hpos])]
  refine .cons (exec_map_read argv0 name hpos) ?_
  cases closeOk with
  | false =>
      rw [if_pos rfl]
      exact .cons (c := .fail) rfl (.exit hm rfl rfl rfl)
  | true =>
  rw [if_neg (by decide)]
  exact .cons (c := .go false) rfl (.written _ hm)

/-! ## Both programs -/

/-- A state in which a process ends alone, and the others stay as they are. -/
theorem Ends.run {w : CrowdWorld ShmFs Proc} {x : Proc} {r : Result} (hx : w.procs[p]? = some x)
    (h : Ends page p w.shared x o r) :
    ∃ (cs : List Call) (v : CrowdWorld ShmFs Proc) (y : Proc) (m' : MemObj),
      (pshm page).system.run w (cs.map (.exec p)) = some v ∧
      v.procs = w.procs.set p y ∧ y.pc = .exited r.status ∧ y.out = r.stdout ∧
      v.shared.objs[o]? = some m' ∧ m'.contents = r.object := by
  obtain ⟨cs, g', y, m', halone, hpc, hout, hm', hobject⟩ := h
  exact ⟨cs, ⟨g', w.procs.set p y⟩, y, m', Crowd.run_alone hx halone, rfl, hpc, hout, hm', hobject⟩

/-- **The programs one at a time.** A `pshm_write` or `pshm_read` process that has just been started
among any other processes, and whose name refers to an object, can run to its end without a step of
another process, whichever of its calls are to fail; it then has the status, the output and the
object that `pshmWrite` or `pshmRead` says for these calls and the bytes of the object. -/
theorem commands_run_alone {w : CrowdWorld ShmFs Proc} (hm : w.shared.objs[o]? = some m)
    (ho : w.shared.names name = some o) :
    (∀ calls : WriteCalls,
      w.procs[p]? = some ((pshm page).spawn ⟨.write, [argv0, name, s]⟩) →
      ∃ (cs : List Call) (v : CrowdWorld ShmFs Proc) (y : Proc) (m' : MemObj),
        (pshm page).system.run w (cs.map (.exec p)) = some v ∧
        v.procs = w.procs.set p y ∧
        y.pc = .exited (pshmWrite [argv0, name, s] calls m.contents).status ∧
        y.out = (pshmWrite [argv0, name, s] calls m.contents).stdout ∧
        v.shared.objs[o]? = some m' ∧
        m'.contents = (pshmWrite [argv0, name, s] calls m.contents).object) ∧
    (∀ calls : ReadCalls,
      w.procs[p]? = some ((pshm page).spawn ⟨.read, [argv0, name]⟩) →
      ∃ (cs : List Call) (v : CrowdWorld ShmFs Proc) (y : Proc) (m' : MemObj),
        (pshm page).system.run w (cs.map (.exec p)) = some v ∧
        v.procs = w.procs.set p y ∧
        y.pc = .exited (pshmRead [argv0, name] calls m.contents).status ∧
        y.out = (pshmRead [argv0, name] calls m.contents).stdout ∧
        v.shared.objs[o]? = some m' ∧
        m'.contents = (pshmRead [argv0, name] calls m.contents).object) := by
  constructor
  · intro calls hx
    exact (pshmWrite_ends calls ho hm).run hx
  · intro calls hx
    exact (pshmRead_ends calls ho hm).run hx

/-- An object with three bytes. -/
def sampleObject : MemObj := ⟨3, fun i => ((str "abc")[i]?).getD 0⟩

/-- A `pshm_write` process that is to write two bytes. -/
def sampleAlone : CrowdWorld ShmFs Proc where
  shared := Named.empty.create (str "/m") sampleObject
  procs := [(pshm 4096).spawn ⟨.write, [str "pshm_write", str "/m", str "hi"]⟩]

theorem commands_run_alone_sampleAlone :
    ∃ (cs : List Call) (v : CrowdWorld ShmFs Proc) (m' : MemObj),
      (pshm 4096).system.run sampleAlone (cs.map (.exec 0)) = some v ∧
      v.shared.objs[0]? = some m' ∧ m'.contents = str "hi" := by
  obtain ⟨cs, v, y, m', hrun, -, -, -, hm', hobject⟩ :=
    (commands_run_alone (show sampleAlone.shared.objs[0]? = some sampleObject from rfl)
      (show sampleAlone.shared.names (str "/m") = some 0 from rfl)).1 ⟨true, true, true, true⟩
      (show sampleAlone.procs[0]? =
        some ((pshm 4096).spawn ⟨.write, [str "pshm_write", str "/m", str "hi"]⟩) from rfl)
  exact ⟨cs, v, m', hrun, hm', hobject.trans (by decide +kernel)⟩

/-! ## Every run of a process alone -/

/-- A process has ended as `r` says. -/
structure EndedAs (g : ShmFs) (x : Proc) (o : ℕ) (r : Result) : Prop where
  pc : x.pc = .exited r.status
  out : x.out = r.stdout
  object : ∃ m, g.objs[o]? = some m ∧ m.contents = r.object

/-- A process was killed, or a page of the object was not there. -/
def Stopped (x : Proc) : Prop := x.pc = .sigbus ∨ x.pc = .killed

/-- What a `pshm_write` process that runs alone finds and leaves at each place; at its start the
object is `m₀`. -/
inductive WriterAt (page : ℕ) (argv0 name s : List UInt8) (o : ℕ) (m₀ : MemObj) (g : ShmFs) :
    Proc → Prop where
  | start (ho : g.names name = some o) (hm : g.objs[o]? = some m₀) :
      WriterAt page argv0 name s o m₀ g ((pshm page).spawn ⟨.write, [argv0, name, s]⟩)
  | opened (hname : name ≠ str "--help") (hm : g.objs[o]? = some m₀) :
      WriterAt page argv0 name s o m₀ g (writer argv0 name s o .opened [])
  | sized (m : MemObj) (hname : name ≠ str "--help") (hm : g.objs[o]? = some m)
      (hc : m.contents = ftruncate m₀.contents s.length) (hsize : m.size = s.length) :
      WriterAt page argv0 name s o m₀ g
        (writer argv0 name s o (.sized s.length) (resizedText s.length))
  | mapped (m : MemObj) (hname : name ≠ str "--help") (hm : g.objs[o]? = some m)
      (hc : m.contents = ftruncate m₀.contents s.length) (hsize : m.size = s.length)
      (hpos : 0 < s.length) :
      WriterAt page argv0 name s o m₀ g
        (writer argv0 name s o (.mapped s.length) (resizedText s.length))
  | copying (m : MemObj) (left : List ℕ) (hname : name ≠ str "--help")
      (hm : g.objs[o]? = some m)
      (hprogress : Progress True s m (.copying left)) :
      WriterAt page argv0 name s o m₀ g
        (writer argv0 name s o (.copying left) (resizedText s.length ++ copyingText s.length))
  | ended (x : Proc) (calls : WriteCalls)
      (h : EndedAs g x o (pshmWrite [argv0, name, s] calls m₀.contents)) :
      WriterAt page argv0 name s o m₀ g x
  | stopped (x : Proc) (h : Stopped x) : WriterAt page argv0 name s o m₀ g x

section

variable {m₀ : MemObj} {g' : ShmFs} {x y : Proc} {c : Call}

/-- Before `ftruncate` nothing has happened to the object. -/
theorem WriterAt.early (calls : WriteCalls) (hcalls : StopsEarly name calls)
    (hpc : x.pc = .exited EXIT_FAILURE) (hout : x.out = []) (hm : g.objs[o]? = some m₀) :
    WriterAt page argv0 name s o m₀ g x := by
  refine .ended x calls ?_
  by_cases hname : name = str "--help"
  · simp only [pshmWrite, if_pos hname]
    exact ⟨hpc, hout, m₀, hm, rfl⟩
  simp only [pshmWrite, if_neg hname]
  by_cases hopen : calls.shmOpen = false
  · rw [if_pos hopen]
    exact ⟨hpc, hout, m₀, hm, rfl⟩
  rw [if_neg hopen, if_pos ((hcalls.resolve_left hname).resolve_left hopen)]
  exact ⟨hpc, hout, m₀, hm, rfl⟩

/-- After `ftruncate` the old bytes are gone. -/
theorem WriterAt.late (calls : WriteCalls) (hname : name ≠ str "--help")
    (hcalls : calls.shmOpen = true ∧ calls.ftruncate = true)
    (hfail : mmap s.length calls.mmap = false ∨ calls.close = false)
    (hpc : x.pc = .exited EXIT_FAILURE) (hout : x.out = resizedText s.length)
    (hm : g.objs[o]? = some m) (hc : m.contents = ftruncate m₀.contents s.length) :
    WriterAt page argv0 name s o m₀ g x := by
  refine .ended x calls ?_
  simp only [pshmWrite, if_neg hname, hcalls.1, hcalls.2, Bool.true_eq_false, if_false]
  by_cases hmmap : mmap s.length calls.mmap = false
  · rw [if_pos hmmap]
    exact ⟨hpc, hout, m, hm, hc⟩
  rw [if_neg hmmap, if_pos (hfail.resolve_left hmmap)]
  exact ⟨hpc, hout, m, hm, hc⟩

theorem exec_ended (h : x.pc.ended = true) : (pshm page).exec p g x c = none := by
  cases hpc : x.pc with
  | exited status => cases c <;> simp [pshm, exec, go, fail, hpc, Pc.ended]
  | sigbus => cases c <;> simp [pshm, exec, go, fail, hpc, Pc.ended]
  | killed => cases c <;> simp [pshm, exec, go, fail, hpc, Pc.ended]
  | _ =>
      rw [hpc] at h
      cases h

theorem exec_inj {r : ShmFs × Proc} (h : (pshm page).exec p g x c = some r)
    (hexec : (pshm page).exec p g x c = some (g', y)) : r = (g', y) :=
  Option.some.inj (h.symm.trans hexec)

theorem exec_kill (hexec : (pshm page).exec p g x .kill = some (g', y)) : g' = g ∧ Stopped y := by
  simp only [pshm, PshmCommands.exec] at hexec
  split at hexec
  · cases hexec
  · obtain ⟨rfl, rfl⟩ := Prod.mk.inj (Option.some.inj hexec)
    exact ⟨rfl, Or.inr rfl⟩

theorem WriterAt.exec_start (ho : g.names name = some o) (hm : g.objs[o]? = some m₀)
    (hc : c ≠ .go true)
    (hexec : (pshm page).exec p g ((pshm page).spawn ⟨.write, [argv0, name, s]⟩) c =
      some (g', y)) :
    WriterAt page argv0 name s o m₀ g' y := by
  cases c with
  | go stale =>
      obtain rfl : stale = false := by simpa using hc
      by_cases hname : name = str "--help"
      · have hexit : (pshm page).exec p g ((pshm page).spawn ⟨.write, [argv0, name, s]⟩)
            (.go false) =
            some (g, ((pshm page).spawn ⟨.write, [argv0, name, s]⟩).exit EXIT_FAILURE) := by
          simp [pshm, PshmCommands.exec, go, openShm, Proc.badArgs, hname]
        obtain ⟨rfl, rfl⟩ := Prod.mk.inj (exec_inj hexit hexec)
        exact .early ⟨true, true, true, true⟩ (Or.inl hname) rfl rfl hm
      · obtain ⟨rfl, rfl⟩ := Prod.mk.inj (exec_inj (exec_open argv0 name s hname ho) hexec)
        exact .opened hname hm
  | store k => cases hexec
  | fail =>
      obtain ⟨rfl, rfl⟩ := Prod.mk.inj (Option.some.inj hexec)
      exact .early ⟨false, true, true, true⟩ (Or.inr (Or.inl rfl)) rfl rfl hm
  | kill => exact .stopped _ (exec_kill hexec).2

/-- The process in `memcpy`, where the bytes may be stored in any order. -/
theorem WriterAt.exec_copying {left : List ℕ} (hname : name ≠ str "--help")
    (hm : g.objs[o]? = some m) (hprogress : Progress True s m (.copying left)) (hc : c ≠ .go true)
    (hexec : (pshm page).exec p g (writer argv0 name s o (.copying left)
      (resizedText s.length ++ copyingText s.length)) c = some (g', y)) :
    WriterAt page argv0 name s o m₀ g' y := by
  have hmove := exec_cases (p := p) hexec
  obtain ⟨m', hm', -, hprogress'⟩ :=
    hprogress.move (x := writer argv0 name s o (.copying left) _) (fun _ => trivial) rfl rfl hm
      hmove
  cases c with
  | go stale =>
      cases hmove with
      | copied _ hpc =>
          -- All bytes are stored.
          obtain ⟨hholds, hne⟩ := hprogress' rfl
          have hpos : s.length ≠ 0 := fun hzero => hne (List.length_eq_zero_iff.mp hzero)
          refine .ended _ ⟨true, true, true, true⟩ ?_
          simp only [pshmWrite, if_neg hname, Bool.true_eq_false, if_false]
          rw [if_neg (by simp [mmap, Nat.pos_of_ne_zero hpos]), memcpy_ftruncate]
          exact ⟨rfl, rfl, m', hm', hholds.contents⟩
      | failed _ _ hwhy => rcases hwhy with hwhy | hwhy | hwhy | hwhy <;> cases hwhy
      | opened _ _ _ _ hpc => cases hpc
      | unlinked _ _ _ hprog => cases hprog
      | resized _ _ _ _ _ hpc => cases hpc
      | found _ _ _ hprog => cases hprog
      | created _ _ hprog => cases hprog
      | mapped _ _ _ hpc => cases hpc
      | copying _ _ _ _ hpc => cases hpc
      | writing _ _ hprog => cases hprog
      | byte _ _ _ _ hpc => cases hpc
      | written _ _ _ _ hpc => cases hpc
  | store k =>
      cases hmove with
      | stored _ _ _ _ left' hpc =>
          obtain rfl := Pc.copying.inj hpc
          exact .copying m' _ hname hm' hprogress'
      | sigbus => exact .stopped _ (Or.inl rfl)
      | failed _ _ hwhy => rcases hwhy with hwhy | hwhy | hwhy | hwhy <;> cases hwhy
  | fail =>
      obtain ⟨rfl, rfl⟩ := Prod.mk.inj (Option.some.inj hexec)
      exact .stopped _ (Or.inl rfl)
  | kill => exact .stopped _ (exec_kill hexec).2

theorem WriterAt.exec (h : WriterAt page argv0 name s o m₀ g x) (hc : c ≠ .go true)
    (hexec : (pshm page).exec p g x c = some (g', y)) :
    WriterAt page argv0 name s o m₀ g' y := by
  cases h with
  | start ho hm => exact .exec_start ho hm hc hexec
  | copying m left hname hm hprogress => exact .exec_copying hname hm hprogress hc hexec
  | ended x calls h =>
      rw [exec_ended (by rw [h.pc]; rfl)] at hexec
      cases hexec
  | stopped x h =>
      rw [exec_ended (by rcases h with h | h <;> rw [h] <;> rfl)] at hexec
      cases hexec
  | opened hname hm =>
      obtain ⟨hlt, -⟩ := List.getElem?_eq_some_iff.mp hm
      cases c with
      | go stale =>
          obtain rfl : stale = false := by simpa using hc
          obtain ⟨rfl, rfl⟩ := Prod.mk.inj (exec_inj (exec_resize argv0 name s [] hm) hexec)
          exact .sized _ hname (List.getElem?_set_self hlt) (contents_ftruncate m₀ _) rfl
      | store k => cases hexec
      | fail =>
          obtain ⟨rfl, rfl⟩ := Prod.mk.inj (exec_inj (exec_fail argv0 name s [] rfl) hexec)
          exact .early ⟨true, false, true, true⟩ (Or.inr (Or.inr rfl)) rfl rfl hm
      | kill => exact .stopped _ (exec_kill hexec).2
  | sized m hname hm hcontents hsize =>
      cases c with
      | go stale =>
          obtain rfl : stale = false := by simpa using hc
          by_cases hpos : 0 < s.length
          · obtain ⟨rfl, rfl⟩ := Prod.mk.inj (exec_inj (exec_map argv0 name s _ hpos) hexec)
            exact .mapped m hname hm hcontents hsize hpos
          · have hzero : s.length = 0 := Nat.eq_zero_of_not_pos hpos
            have hexit : (pshm page).exec p g
                (writer argv0 name s o (.sized s.length) (resizedText s.length)) (.go false) =
                some (g, writer argv0 name s o (.exited EXIT_FAILURE) (resizedText s.length)) := by
              rw [hzero]
              exact exec_map_empty argv0 name s _
            obtain ⟨rfl, rfl⟩ := Prod.mk.inj (exec_inj hexit hexec)
            exact .late ⟨true, true, true, true⟩ hname ⟨rfl, rfl⟩ (Or.inl (by simp [mmap, hzero]))
              rfl rfl hm hcontents
      | store k => cases hexec
      | fail =>
          obtain ⟨rfl, rfl⟩ := Prod.mk.inj (exec_inj (exec_fail argv0 name s _ rfl) hexec)
          exact .late ⟨true, true, false, true⟩ hname ⟨rfl, rfl⟩ (Or.inl rfl) rfl rfl hm hcontents
      | kill => exact .stopped _ (exec_kill hexec).2
  | mapped m hname hm hcontents hsize hpos =>
      cases c with
      | go stale =>
          obtain rfl : stale = false := by simpa using hc
          obtain ⟨rfl, rfl⟩ := Prod.mk.inj (exec_inj (exec_close argv0 name s _ _) hexec)
          refine .copying m _ hname hm ⟨hsize, List.ne_nil_of_length_pos hpos, fun i c hi => ?_⟩
          obtain ⟨hlt, -⟩ := List.getElem?_eq_some_iff.mp hi
          exact Or.inl (List.mem_range.mpr hlt)
      | store k => cases hexec
      | fail =>
          obtain ⟨rfl, rfl⟩ := Prod.mk.inj (exec_inj (exec_fail argv0 name s _ rfl) hexec)
          exact .late ⟨true, true, true, false⟩ hname ⟨rfl, rfl⟩ (Or.inr rfl) rfl rfl hm hcontents
      | kill => exact .stopped _ (exec_kill hexec).2

/-- What a `pshm_read` process that runs alone finds at each place. -/
inductive ReaderAt (page : ℕ) (argv0 name : List UInt8) (o : ℕ) (m₀ : MemObj) (g : ShmFs) :
    Proc → Prop where
  | start (ho : g.names name = some o) :
      ReaderAt page argv0 name o m₀ g ((pshm page).spawn ⟨.read, [argv0, name]⟩)
  | opened (hname : name ≠ str "--help") :
      ReaderAt page argv0 name o m₀ g (reader argv0 name o .opened [])
  | sized (hname : name ≠ str "--help") :
      ReaderAt page argv0 name o m₀ g (reader argv0 name o (.sized m₀.size) [])
  | mapped (hname : name ≠ str "--help") (hpos : 0 < m₀.size) :
      ReaderAt page argv0 name o m₀ g (reader argv0 name o (.mapped m₀.size) [])
  | writing (n : ℕ) (hname : name ≠ str "--help") (hpos : 0 < m₀.size) (hn : n ≤ m₀.size) :
      ReaderAt page argv0 name o m₀ g
        (reader argv0 name o (.writing m₀.size) (m₀.contents.take n))
  | ended (x : Proc) (calls : ReadCalls)
      (h : EndedAs g x o (pshmRead [argv0, name] calls m₀.contents)) :
      ReaderAt page argv0 name o m₀ g x
  | stopped (x : Proc) (h : Stopped x) : ReaderAt page argv0 name o m₀ g x

/-- The calls before `write`, one of which fails, or a mapping without bytes is refused. -/
theorem ReaderAt.early (calls : ReadCalls) (hcalls : name = str "--help" ∨ calls.shmOpen = false ∨
      calls.fstat = false ∨ mmap m₀.size calls.mmap = false ∨ calls.close = false)
    (hpc : x.pc = .exited EXIT_FAILURE) (hout : x.out = []) (hm : g.objs[o]? = some m₀) :
    ReaderAt page argv0 name o m₀ g x := by
  refine .ended x calls ?_
  have hlength := contents_length m₀
  by_cases hname : name = str "--help"
  · simp only [pshmRead, if_pos hname]
    exact ⟨hpc, hout, m₀, hm, rfl⟩
  simp only [pshmRead, if_neg hname, hlength]
  split
  · exact ⟨hpc, hout, m₀, hm, rfl⟩
  split
  · exact ⟨hpc, hout, m₀, hm, rfl⟩
  split
  · exact ⟨hpc, hout, m₀, hm, rfl⟩
  rename_i hopen hfstat hmmap
  rw [if_pos ((((hcalls.resolve_left hname).resolve_left hopen).resolve_left hfstat).resolve_left
    hmmap)]
  exact ⟨hpc, hout, m₀, hm, rfl⟩

/-- `write` has returned `n`. -/
theorem ReaderAt.finish (n : ℕ) (hname : name ≠ str "--help") (hpos : 0 < m₀.size)
    (hpc : x.pc = .exited EXIT_SUCCESS) (hout : x.out = m₀.contents.take n ++ str "\n")
    (hm : g.objs[o]? = some m₀) : ReaderAt page argv0 name o m₀ g x := by
  refine .ended x ⟨true, true, true, true, some n⟩ ?_
  have hlength := contents_length m₀
  simp only [pshmRead, if_neg hname, hlength, Bool.true_eq_false, if_false]
  rw [if_neg (by simp [mmap, hpos])]
  exact ⟨hpc, hout, m₀, hm, rfl⟩

theorem ReaderAt.exec_writing {n : ℕ} (hname : name ≠ str "--help") (hpos : 0 < m₀.size)
    (hn : n ≤ m₀.size) (hm : g.objs[o]? = some m₀) (hc : c ≠ .go true)
    (hexec : (pshm page).exec p g
      (reader argv0 name o (.writing m₀.size) (m₀.contents.take n)) c = some (g', y)) :
    g' = g ∧ ReaderAt page argv0 name o m₀ g' y := by
  have hlength : (m₀.contents.take n).length = n := by
    rw [List.length_take, contents_length]
    omega
  cases c with
  | go stale =>
      obtain rfl : stale = false := by simpa using hc
      rcases Nat.lt_or_ge n m₀.size with hlt | hge
      · obtain ⟨rfl, rfl⟩ := Prod.mk.inj (exec_inj (exec_byte argv0 name hm hlt) hexec)
        exact ⟨rfl, .writing (n + 1) hname hpos hlt⟩
      · have hexit : (pshm page).exec p g
            (reader argv0 name o (.writing m₀.size) (m₀.contents.take n)) (.go false) =
            some (g, reader argv0 name o (.exited EXIT_SUCCESS)
              (m₀.contents.take n ++ str "\n")) := by
          simp [pshm, PshmCommands.exec, go, Proc.object, reader, hm, writeByte, hlength,
            not_lt.mpr hge, PshmCommands.finish]
        obtain ⟨rfl, rfl⟩ := Prod.mk.inj (exec_inj hexit hexec)
        exact ⟨rfl, .finish n hname hpos rfl rfl hm⟩
  | store k => cases hexec
  | fail =>
      obtain ⟨rfl, rfl⟩ := Prod.mk.inj (Option.some.inj hexec)
      exact ⟨rfl, .finish n hname hpos rfl rfl hm⟩
  | kill => exact ⟨(exec_kill hexec).1, .stopped _ (exec_kill hexec).2⟩

theorem ReaderAt.exec (h : ReaderAt page argv0 name o m₀ g x) (hm : g.objs[o]? = some m₀)
    (hc : c ≠ .go true) (hexec : (pshm page).exec p g x c = some (g', y)) :
    g' = g ∧ ReaderAt page argv0 name o m₀ g' y := by
  cases h with
  | writing n hname hpos hn => exact ReaderAt.exec_writing hname hpos hn hm hc hexec
  | ended x calls h =>
      rw [exec_ended (by rw [h.pc]; rfl)] at hexec
      cases hexec
  | stopped x h =>
      rw [exec_ended (by rcases h with h | h <;> rw [h] <;> rfl)] at hexec
      cases hexec
  | start ho =>
      cases c with
      | go stale =>
          obtain rfl : stale = false := by simpa using hc
          by_cases hname : name = str "--help"
          · have hexit : (pshm page).exec p g ((pshm page).spawn ⟨.read, [argv0, name]⟩)
                (.go false) =
                some (g, ((pshm page).spawn ⟨.read, [argv0, name]⟩).exit EXIT_FAILURE) := by
              simp [pshm, PshmCommands.exec, go, openShm, Proc.badArgs, hname]
            obtain ⟨rfl, rfl⟩ := Prod.mk.inj (exec_inj hexit hexec)
            exact ⟨rfl, .early ⟨true, true, true, true, none⟩ (Or.inl hname) rfl rfl hm⟩
          · obtain ⟨rfl, rfl⟩ := Prod.mk.inj (exec_inj (exec_open_read argv0 name hname ho) hexec)
            exact ⟨rfl, .opened hname⟩
      | store k => cases hexec
      | fail =>
          obtain ⟨rfl, rfl⟩ := Prod.mk.inj (Option.some.inj hexec)
          exact ⟨rfl, .early ⟨false, true, true, true, none⟩ (Or.inr (Or.inl rfl)) rfl rfl hm⟩
      | kill => exact ⟨(exec_kill hexec).1, .stopped _ (exec_kill hexec).2⟩
  | opened hname =>
      cases c with
      | go stale =>
          obtain rfl : stale = false := by simpa using hc
          obtain ⟨rfl, rfl⟩ := Prod.mk.inj (exec_inj (exec_fstat argv0 name hm) hexec)
          exact ⟨rfl, .sized hname⟩
      | store k => cases hexec
      | fail =>
          obtain ⟨rfl, rfl⟩ := Prod.mk.inj (Option.some.inj hexec)
          exact ⟨rfl, .early ⟨true, false, true, true, none⟩ (Or.inr (Or.inr (Or.inl rfl))) rfl rfl
            hm⟩
      | kill => exact ⟨(exec_kill hexec).1, .stopped _ (exec_kill hexec).2⟩
  | sized hname =>
      cases c with
      | go stale =>
          obtain rfl : stale = false := by simpa using hc
          by_cases hpos : 0 < m₀.size
          · obtain ⟨rfl, rfl⟩ := Prod.mk.inj (exec_inj (exec_map_read argv0 name hpos) hexec)
            exact ⟨rfl, .mapped hname hpos⟩
          · have hexit : (pshm page).exec p g (reader argv0 name o (.sized m₀.size) [])
                (.go false) =
                some (g, reader argv0 name o (.exited EXIT_FAILURE) []) := by
              simp [pshm, PshmCommands.exec, go, mapObject, mmap, hpos, reader, Proc.exit]
            obtain ⟨rfl, rfl⟩ := Prod.mk.inj (exec_inj hexit hexec)
            exact ⟨rfl, .early ⟨true, true, true, true, none⟩
              (Or.inr (Or.inr (Or.inr (Or.inl (by simp [mmap, hpos]))))) rfl rfl hm⟩
      | store k => cases hexec
      | fail =>
          obtain ⟨rfl, rfl⟩ := Prod.mk.inj (Option.some.inj hexec)
          exact ⟨rfl, .early ⟨true, true, false, true, none⟩
            (Or.inr (Or.inr (Or.inr (Or.inl rfl)))) rfl rfl hm⟩
      | kill => exact ⟨(exec_kill hexec).1, .stopped _ (exec_kill hexec).2⟩
  | mapped hname hpos =>
      cases c with
      | go stale =>
          obtain ⟨rfl, rfl⟩ := Prod.mk.inj (Option.some.inj hexec)
          exact ⟨rfl, .writing 0 hname hpos (Nat.zero_le _)⟩
      | store k => cases hexec
      | fail =>
          obtain ⟨rfl, rfl⟩ := Prod.mk.inj (Option.some.inj hexec)
          exact ⟨rfl, .early ⟨true, true, true, false, none⟩
            (Or.inr (Or.inr (Or.inr (Or.inr rfl)))) rfl rfl hm⟩
      | kill => exact ⟨(exec_kill hexec).1, .stopped _ (exec_kill hexec).2⟩

end

/-- **No other end.** Where `ftruncate` fills with NUL bytes, a `pshm_write` or `pshm_read` process
that has just been started, and whose name refers to an object, can end alone only as `pshmWrite` or
`pshmRead` says for some results of its calls, in whatever order `memcpy` stores the bytes. -/
theorem alone_ends_as {cs : List Call} {g' : ShmFs} {y : Proc} {status : ℕ}
    (hm : g.objs[o]? = some m) (ho : g.names name = some o) (hcs : .go true ∉ cs)
    (hstatus : y.pc = .exited status) :
    ((pshm page).alone p g ((pshm page).spawn ⟨.write, [argv0, name, s]⟩) cs = some (g', y) →
      ∃ calls, EndedAs g' y o (pshmWrite [argv0, name, s] calls m.contents)) ∧
    ((pshm page).alone p g ((pshm page).spawn ⟨.read, [argv0, name]⟩) cs = some (g', y) →
      ∃ calls, EndedAs g' y o (pshmRead [argv0, name] calls m.contents)) := by
  have hok : ∀ c ∈ cs, c ≠ .go true := fun c hc heq => hcs (heq ▸ hc)
  have hnot : ¬ Stopped y := by
    rintro (h | h) <;> exact nomatch hstatus.symm.trans h
  constructor
  · intro halone
    have hat := Crowd.alone_preserves (fun _ _ _ _ _ h hc hexec => WriterAt.exec h hc hexec)
      (WriterAt.start ho hm) hok halone
    cases hat with
    | ended y calls h => exact ⟨calls, h⟩
    | stopped y h => exact absurd h hnot
    | _ => cases hstatus
  · intro halone
    have hat := Crowd.alone_preserves
      (P := fun g x => g.objs[o]? = some m ∧ ReaderAt page argv0 name o m g x)
      (fun _ _ _ _ _ h hc hexec =>
        ⟨(h.2.exec h.1 hc hexec).1 ▸ h.1, (h.2.exec h.1 hc hexec).2⟩)
      ⟨hm, ReaderAt.start ho⟩ hok halone
    cases hat.2 with
    | ended y calls h => exact ⟨calls, h⟩
    | stopped y h => exact absurd h hnot
    | _ => cases hstatus

end Tlpi.PshmCommands
