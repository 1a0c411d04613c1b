import Mathlib.Tactic

set_option autoImplicit false

/-! # Random-access writes

A write puts a string at an offset of a string of cells. Cells between the old end and the offset
become `hole`. After a sequence of writes a cell holds what the last write that covers it has put
there; a cell that no write covers is as it was, or a hole.
-/

namespace Overwrite

universe u

variable {α : Type u} (hole : α)

/-- The cells after the string `bs` was written at `off`. An empty string leaves no hole. -/
def overwrite (cells : List α) (off : ℕ) (bs : List α) : List α :=
  if bs.isEmpty then cells
  else
    cells.take off ++ List.replicate (off - cells.length) hole ++ bs ++ cells.drop (off + bs.length)

/-- A write: its offset and its string. -/
abbrev Write (α : Type u) := ℕ × List α

def covers (i : ℕ) (w : Write α) : Bool := decide (w.1 ≤ i ∧ i < w.1 + w.2.length)

/-- What the last write that covers the cell `i` has put there. -/
def lastWrite (ws : List (Write α)) (i : ℕ) : Option α :=
  (ws.reverse.find? (covers i)).bind fun w => w.2[i - w.1]?

/-- The number of cells after the writes if there were `n` before. -/
def size (n : ℕ) (ws : List (Write α)) : ℕ :=
  ws.foldl (fun n w => if w.2.isEmpty then n else max n (w.1 + w.2.length)) n

def overwriteAll (cells : List α) (ws : List (Write α)) : List α :=
  ws.foldl (fun cells w => overwrite hole cells w.1 w.2) cells

theorem covers_iff {i : ℕ} {w : Write α} :
    covers i w = true ↔ w.1 ≤ i ∧ i < w.1 + w.2.length := decide_eq_true_iff

@[simp] theorem overwrite_nil (cells : List α) (off : ℕ) : overwrite hole cells off [] = cells :=
  rfl

theorem overwrite_length (cells : List α) (off : ℕ) {bs : List α} (h : bs ≠ []) :
    (overwrite hole cells off bs).length = max cells.length (off + bs.length) := by
  rw [overwrite, if_neg (by simpa using h)]
  simp only [List.length_append, List.length_take, List.length_replicate, List.length_drop]
  omega

/-- A cell that the write covers. -/
theorem overwrite_covered (cells : List α) {off i : ℕ} {bs : List α} (hle : off ≤ i)
    (hlt : i < off + bs.length) : (overwrite hole cells off bs)[i]? = bs[i - off]? := by
  have hne : bs ≠ [] := by
    rintro rfl
    simp only [List.length_nil] at hlt
    omega
  have hgap : (cells.take off ++ List.replicate (off - cells.length) hole).length = off := by
    simp only [List.length_append, List.length_take, List.length_replicate]
    omega
  rw [overwrite, if_neg (by simpa using hne), List.append_assoc _ bs,
    List.getElem?_append_right (by omega), hgap, List.getElem?_append_left (by omega)]

/-- A cell that the write does not cover. -/
theorem overwrite_uncovered (cells : List α) {off i : ℕ} {bs : List α}
    (h : i < off ∨ off + bs.length ≤ i) :
    ((overwrite hole cells off bs)[i]?).getD hole = (cells[i]?).getD hole := by
  by_cases hempty : bs = []
  · rw [hempty, overwrite_nil]
  rw [overwrite, if_neg (by simpa using hempty), List.append_assoc _ bs]
  have hgap : (cells.take off ++ List.replicate (off - cells.length) hole).length = off := by
    simp only [List.length_append, List.length_take, List.length_replicate]
    omega
  rcases h with hbefore | hafter
  · rw [List.getElem?_append_left (by omega)]
    by_cases hin : i < cells.length
    · rw [List.getElem?_append_left (by rw [List.length_take]; omega),
        List.getElem?_take_of_lt hbefore]
    · -- The cell lies in the gap between the old end and the offset.
      have hlen : (cells.take off).length = cells.length := by
        rw [List.length_take]
        omega
      rw [List.getElem?_append_right (by omega), hlen, List.getElem?_replicate,
        if_pos (by omega), List.getElem?_eq_none (by omega), Option.getD_some, Option.getD_none]
  · rw [List.getElem?_append_right (by omega), hgap, List.getElem?_append_right (by omega),
      List.getElem?_drop]
    congr 2
    omega

/-! ## Sequences of writes -/

theorem overwriteAll_concat (cells : List α) (ws : List (Write α)) (w : Write α) :
    overwriteAll hole cells (ws ++ [w]) = overwrite hole (overwriteAll hole cells ws) w.1 w.2 := by
  rw [overwriteAll, List.foldl_append]
  rfl

theorem size_concat (n : ℕ) (ws : List (Write α)) (w : Write α) :
    size n (ws ++ [w]) =
      if w.2.isEmpty then size n ws else max (size n ws) (w.1 + w.2.length) := by
  rw [size, List.foldl_append]
  rfl

theorem lastWrite_concat_covered {ws : List (Write α)} {w : Write α} {i : ℕ}
    (h : covers i w = true) : lastWrite (ws ++ [w]) i = w.2[i - w.1]? := by
  rw [lastWrite, List.reverse_append, List.reverse_singleton, List.singleton_append,
    List.find?_cons_of_pos h, Option.bind_some]

theorem lastWrite_concat_uncovered {ws : List (Write α)} {w : Write α} {i : ℕ}
    (h : covers i w = false) : lastWrite (ws ++ [w]) i = lastWrite ws i := by
  rw [lastWrite, List.reverse_append, List.reverse_singleton, List.singleton_append,
    List.find?_cons_of_neg (by simp [h]), lastWrite]

theorem overwriteAll_length (cells : List α) (ws : List (Write α)) :
    (overwriteAll hole cells ws).length = size cells.length ws := by
  induction ws using List.reverseRecOn with
  | nil => rfl
  | append_singleton ws w ih =>
      rw [overwriteAll_concat, size_concat]
      by_cases hempty : w.2 = []
      · rw [hempty, overwrite_nil, ih]
        rfl
      · rw [overwrite_length hole _ _ hempty, ih, if_neg (by simpa using hempty)]

/-- **The last write wins.** -/
theorem overwriteAll_getD (cells : List α) (ws : List (Write α)) (i : ℕ) :
    ((overwriteAll hole cells ws)[i]?).getD hole =
      (lastWrite ws i).getD ((cells[i]?).getD hole) := by
  induction ws using List.reverseRecOn with
  | nil => rfl
  | append_singleton ws w ih =>
      rw [overwriteAll_concat]
      by_cases hcovers : w.1 ≤ i ∧ i < w.1 + w.2.length
      · have hlt : i - w.1 < w.2.length := by omega
        rw [overwrite_covered hole _ hcovers.1 hcovers.2,
          lastWrite_concat_covered (covers_iff.mpr hcovers), List.getElem?_eq_getElem hlt,
          Option.getD_some, Option.getD_some]
      · have hfalse : covers i w = false := by
          rw [← Bool.not_eq_true, covers_iff]
          exact hcovers
        rw [overwrite_uncovered hole _ (by omega), lastWrite_concat_uncovered hfalse, ih]

end Overwrite
