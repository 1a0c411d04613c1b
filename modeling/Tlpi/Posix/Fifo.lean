import Tlpi.Posix.Base

set_option autoImplicit false

/-! # Named FIFOs

What the kernel keeps for the FIFOs of a file system: the bytes in each of them, how many ends are
open, and which name leads to which FIFO. A FIFO keeps the name it was created under as long as it
exists, also after that name has been removed or given to another FIFO.

Opening one end blocks until the other end is opened. An open is therefore two steps: it arrives
(`Fifo.addReader`, `Fifo.addWriter`) and it returns once a partner is there or has been there since
(`Fifo.writerCame`, `Fifo.readerCame`).
-/

namespace Tlpi

/-- A FIFO. `readers` and `writers` count its open ends, those of blocked opens included;
`readerOpens` and `writerOpens` count all opens so far. -/
structure Fifo where
  path : List UInt8
  buf : List UInt8
  readers : ℕ
  writers : ℕ
  readerOpens : ℕ
  writerOpens : ℕ
deriving DecidableEq, Repr

namespace Fifo

def fresh (path : List UInt8) : Fifo := ⟨path, [], 0, 0, 0, 0⟩

def addReader (f : Fifo) : Fifo :=
  { f with readers := f.readers + 1, readerOpens := f.readerOpens + 1 }

def addWriter (f : Fifo) : Fifo :=
  { f with writers := f.writers + 1, writerOpens := f.writerOpens + 1 }

/-- Once no end is open, the bytes still in the FIFO are lost. -/
def settle (f : Fifo) : Fifo := if f.readers = 0 ∧ f.writers = 0 then { f with buf := [] } else f

def dropReader (f : Fifo) : Fifo := settle { f with readers := f.readers - 1 }

def dropWriter (f : Fifo) : Fifo := settle { f with writers := f.writers - 1 }

def put (bs : List UInt8) (f : Fifo) : Fifo := { f with buf := f.buf ++ bs }

def consume (n : ℕ) (f : Fifo) : Fifo := { f with buf := f.buf.drop n }

/-- An open for reading that arrived after `seen` opens for writing may return. -/
def writerCame (f : Fifo) (seen : ℕ) : Bool := decide (0 < f.writers ∨ seen < f.writerOpens)

/-- An open for writing that arrived after `seen` opens for reading may return. -/
def readerCame (f : Fifo) (seen : ℕ) : Bool := decide (0 < f.readers ∨ seen < f.readerOpens)

@[simp] theorem settle_path (f : Fifo) : f.settle.path = f.path := by
  unfold settle
  split <;> rfl

theorem settle_buf (f : Fifo) : f.settle.buf = f.buf ∨ f.settle.buf = [] := by
  unfold settle
  split
  · exact Or.inr rfl
  · exact Or.inl rfl

end Fifo

/-- The FIFOs of a file system, numbered in the order of their creation. -/
structure FifoFs where
  names : List UInt8 → Option ℕ
  fifos : ℕ → Fifo
  size : ℕ
  names_ok : ∀ path i, names path = some i → (fifos i).path = path ∧ i < size

namespace FifoFs

/-- The number `i` is that of a FIFO created as `path`. -/
def CreatedAs (fs : FifoFs) (path : List UInt8) (i : ℕ) : Prop :=
  (fs.fifos i).path = path ∧ i < fs.size

theorem createdAs_of_names {fs : FifoFs} {path : List UInt8} {i : ℕ} (h : fs.names path = some i) :
    fs.CreatedAs path i := fs.names_ok path i h

/-- `mkfifo(path)` for a name that is not in use. -/
def mkfifo (fs : FifoFs) (path : List UInt8) : FifoFs where
  names := Function.update fs.names path (some fs.size)
  fifos := Function.update fs.fifos fs.size (Fifo.fresh path)
  size := fs.size + 1
  names_ok := by
    intro q i h
    by_cases hq : q = path
    · -- the new name leads to the new FIFO, the other names to where they led
      subst hq
      obtain rfl : fs.size = i := by simpa using h
      exact ⟨by simp [Fifo.fresh], Nat.lt_succ_self _⟩
    · have hi := fs.names_ok q i (by simpa [hq] using h)
      exact ⟨by simpa [Nat.ne_of_lt hi.2] using hi.1, Nat.lt_succ_of_lt hi.2⟩

/-- `unlink(path)`: the name goes, the FIFO stays for those who have it open. -/
def unlink (fs : FifoFs) (path : List UInt8) : FifoFs where
  names := Function.update fs.names path none
  fifos := fs.fifos
  size := fs.size
  names_ok := by
    intro q i h
    by_cases hq : q = path
    · subst hq
      simp at h
    · exact fs.names_ok q i (by simpa [hq] using h)

/-- A change of one FIFO; `hf` is the promise that it does not change the name. -/
def modify (fs : FifoFs) (i : ℕ) (f : Fifo → Fifo) (hf : ∀ x, (f x).path = x.path) : FifoFs where
  names := fs.names
  fifos := Function.update fs.fifos i (f (fs.fifos i))
  size := fs.size
  names_ok := by
    intro q j h
    have hj := fs.names_ok q j h
    refine ⟨?_, hj.2⟩
    by_cases hji : j = i
    · subst hji
      simpa [hf] using hj.1
    · simpa [hji] using hj.1

def addReader (fs : FifoFs) (i : ℕ) : FifoFs := fs.modify i Fifo.addReader fun _ => rfl

def addWriter (fs : FifoFs) (i : ℕ) : FifoFs := fs.modify i Fifo.addWriter fun _ => rfl

def dropReader (fs : FifoFs) (i : ℕ) : FifoFs :=
  fs.modify i Fifo.dropReader fun _ => Fifo.settle_path _

def dropWriter (fs : FifoFs) (i : ℕ) : FifoFs :=
  fs.modify i Fifo.dropWriter fun _ => Fifo.settle_path _

def put (fs : FifoFs) (i : ℕ) (bs : List UInt8) : FifoFs := fs.modify i (Fifo.put bs) fun _ => rfl

def consume (fs : FifoFs) (i n : ℕ) : FifoFs := fs.modify i (Fifo.consume n) fun _ => rfl

/-! ## What the operations keep -/

/-- The FIFOs of `fs` are still there in `fs'`, under the names they were created as. -/
def Extends (fs fs' : FifoFs) : Prop := ∀ path i, fs.CreatedAs path i → fs'.CreatedAs path i

/-- What every operation but reading and writing does: no byte enters a FIFO, and bytes leave it
only all at once. -/
structure Keeps (fs fs' : FifoFs) : Prop where
  created : fs.Extends fs'
  bytes : ∀ i, (fs'.fifos i).buf = []
    ∨ (fs'.fifos i).buf = (fs.fifos i).buf ∧ (fs'.fifos i).path = (fs.fifos i).path

theorem Keeps.refl (fs : FifoFs) : fs.Keeps fs := ⟨fun _ _ h => h, fun _ => Or.inr ⟨rfl, rfl⟩⟩

theorem modify_extends (fs : FifoFs) (i : ℕ) (f : Fifo → Fifo) (hf : ∀ x, (f x).path = x.path) :
    fs.Extends (fs.modify i f hf) := by
  intro path j hj
  refine ⟨?_, hj.2⟩
  by_cases hji : j = i
  · subst hji
    simpa [modify, hf] using hj.1
  · simpa [modify, hji] using hj.1

theorem modify_keeps (fs : FifoFs) (i : ℕ) (f : Fifo → Fifo) (hf : ∀ x, (f x).path = x.path)
    (hbuf : ∀ x, (f x).buf = x.buf ∨ (f x).buf = []) : fs.Keeps (fs.modify i f hf) := by
  refine ⟨fs.modify_extends i f hf, fun j => ?_⟩
  by_cases hji : j = i
  · subst hji
    simp only [modify, Function.update_self, hf, and_true]
    exact (hbuf (fs.fifos j)).symm
  · simp [modify, hji]

theorem put_extends (fs : FifoFs) (i : ℕ) (bs : List UInt8) : fs.Extends (fs.put i bs) :=
  fs.modify_extends i _ _

theorem consume_extends (fs : FifoFs) (i n : ℕ) : fs.Extends (fs.consume i n) :=
  fs.modify_extends i _ _

theorem put_self (fs : FifoFs) (i : ℕ) (bs : List UInt8) :
    (fs.put i bs).fifos i = (fs.fifos i).put bs := Function.update_self i _ _

theorem put_of_ne (fs : FifoFs) {i j : ℕ} (bs : List UInt8) (h : j ≠ i) :
    (fs.put i bs).fifos j = fs.fifos j := Function.update_of_ne h _ _

theorem consume_self (fs : FifoFs) (i n : ℕ) :
    (fs.consume i n).fifos i = (fs.fifos i).consume n := Function.update_self i _ _

theorem consume_of_ne (fs : FifoFs) {i j : ℕ} (n : ℕ) (h : j ≠ i) :
    (fs.consume i n).fifos j = fs.fifos j := Function.update_of_ne h _ _

theorem mkfifo_keeps (fs : FifoFs) (path : List UInt8) : fs.Keeps (fs.mkfifo path) := by
  refine ⟨fun q i hi => ⟨?_, Nat.lt_succ_of_lt hi.2⟩, fun i => ?_⟩
  · simpa [mkfifo, Nat.ne_of_lt hi.2] using hi.1
  · by_cases hi : i = fs.size
    · exact Or.inl (by simp [mkfifo, hi, Fifo.fresh])
    · exact Or.inr (by simp [mkfifo, hi])

theorem unlink_keeps (fs : FifoFs) (path : List UInt8) : fs.Keeps (fs.unlink path) :=
  ⟨fun _ _ hi => hi, fun _ => Or.inr ⟨rfl, rfl⟩⟩

theorem addReader_keeps (fs : FifoFs) (i : ℕ) : fs.Keeps (fs.addReader i) :=
  fs.modify_keeps i _ _ fun _ => Or.inl rfl

theorem addWriter_keeps (fs : FifoFs) (i : ℕ) : fs.Keeps (fs.addWriter i) :=
  fs.modify_keeps i _ _ fun _ => Or.inl rfl

theorem dropReader_keeps (fs : FifoFs) (i : ℕ) : fs.Keeps (fs.dropReader i) :=
  fs.modify_keeps i _ _ fun _ => Fifo.settle_buf _

theorem dropWriter_keeps (fs : FifoFs) (i : ℕ) : fs.Keeps (fs.dropWriter i) :=
  fs.modify_keeps i _ _ fun _ => Fifo.settle_buf _

end FifoFs

end Tlpi
