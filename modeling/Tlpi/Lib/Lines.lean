import Mathlib.Tactic

set_option autoImplicit false

/-! # The lines of a string

A line is the text up to and including the first separator; a last line without a separator
counts if it is not empty. `splitLine` cuts off the first line, `lines` is the list of them all.
`splitChunk` cuts off the first line, or a part of it if it is long.
-/

namespace Lines

variable {α : Type*} [DecidableEq α]

/-- The first line and the text after it. -/
def splitLine (nl : α) : List α → List α × List α
  | [] => ([], [])
  | a :: as =>
      if a = nl then ([a], as)
      else (a :: (splitLine nl as).1, (splitLine nl as).2)

/-- The lines of a text, in order, each with its separator. -/
def lines (nl : α) : List α → List (List α)
  | [] => []
  | a :: as =>
      if a = nl then [a] :: lines nl as
      else
        match lines nl as with
        | [] => [[a]]
        | l :: ls => (a :: l) :: ls

@[simp] theorem splitLine_nil (nl : α) : splitLine nl [] = ([], []) := rfl

@[simp] theorem lines_nil (nl : α) : lines nl [] = [] := rfl

theorem splitLine_ne_nil (nl : α) {as : List α} (h : as ≠ []) : (splitLine nl as).1 ≠ [] := by
  cases as with
  | nil => exact absurd rfl h
  | cons a as =>
      rw [splitLine]
      split <;> simp

/-- A non-empty text is its first line followed by the lines of the rest. -/
theorem lines_eq_cons (nl : α) {as : List α} (h : as ≠ []) :
    lines nl as = (splitLine nl as).1 :: lines nl (splitLine nl as).2 := by
  induction as with
  | nil => exact absurd rfl h
  | cons a as ih =>
      rw [lines, splitLine]
      split
      · rfl
      · by_cases has : as = []
        · subst has
          rfl
        · rw [ih has]

/-- Nothing is lost: the lines concatenated are the text. -/
theorem flatten_lines (nl : α) (as : List α) : (lines nl as).flatten = as := by
  induction as with
  | nil => rfl
  | cons a as ih =>
      rw [lines]
      split
      · rw [List.flatten_cons, ih]; rfl
      · cases hls : lines nl as with
        | nil =>
            rw [hls] at ih
            rw [← ih]
            rfl
        | cons l ls =>
            rw [hls, List.flatten_cons] at ih
            simp [ih]

/-- The first line is all up to the first separator, or the whole text if there is none. -/
theorem splitLine_cases (nl : α) (as : List α) :
    (∃ body rest, nl ∉ body ∧ as = body ++ nl :: rest ∧ splitLine nl as = (body ++ [nl], rest)) ∨
      nl ∉ as ∧ splitLine nl as = (as, []) := by
  induction as with
  | nil => exact Or.inr ⟨List.not_mem_nil, rfl⟩
  | cons a as ih =>
      rw [splitLine]
      split
      · rename_i ha
        exact Or.inl ⟨[], as, List.not_mem_nil, by rw [ha]; rfl, by rw [ha]; rfl⟩
      · rename_i ha
        rcases ih with ⟨body, rest, hbody, hall, hsplit⟩ | ⟨hnot, hsplit⟩
        · have hcons : nl ∉ a :: body := by simp [Ne.symm ha, hbody]
          exact Or.inl ⟨a :: body, rest, hcons, by rw [hall]; rfl, by rw [hsplit]; rfl⟩
        · have hcons : nl ∉ a :: as := by simp [Ne.symm ha, hnot]
          exact Or.inr ⟨hcons, by rw [hsplit]⟩

theorem splitLine_terminated {nl : α} {body : List α} (h : nl ∉ body) (rest : List α) :
    splitLine nl (body ++ nl :: rest) = (body ++ [nl], rest) := by
  induction body with
  | nil => exact if_pos rfl
  | cons a body ih =>
      obtain ⟨hne, hbody⟩ := List.ne_and_not_mem_of_not_mem_cons h
      rw [List.cons_append, splitLine, if_neg (Ne.symm hne), ih hbody]
      rfl

theorem splitLine_append (nl : α) (as : List α) :
    (splitLine nl as).1 ++ (splitLine nl as).2 = as := by
  rcases splitLine_cases nl as with ⟨body, rest, -, hall, hsplit⟩ | ⟨-, hsplit⟩
  · rw [hsplit, hall, List.append_assoc, List.singleton_append]
  · rw [hsplit, List.append_nil]

/-! ## Chunks of bounded length -/

/-- The first line, or its first `n` elements if it is longer, and the text after them. -/
def splitChunk (nl : α) : ℕ → List α → List α × List α
  | 0, as => ([], as)
  | _ + 1, [] => ([], [])
  | n + 1, a :: as =>
      if a = nl then ([a], as)
      else (a :: (splitChunk nl n as).1, (splitChunk nl n as).2)

theorem splitChunk_fst (nl : α) (n : ℕ) (as : List α) :
    (splitChunk nl n as).1 = (splitLine nl as).1.take n := by
  induction as generalizing n with
  | nil => cases n <;> rfl
  | cons a as ih =>
      cases n with
      | zero => rw [List.take_zero]; rfl
      | succ n =>
          rw [splitChunk, splitLine]
          split
          · simp
          · rw [List.take_succ_cons, ih n]

theorem splitChunk_append (nl : α) (n : ℕ) (as : List α) :
    (splitChunk nl n as).1 ++ (splitChunk nl n as).2 = as := by
  induction as generalizing n with
  | nil => cases n <;> rfl
  | cons a as ih =>
      cases n with
      | zero => rfl
      | succ n =>
          rw [splitChunk]
          split
          · rfl
          · rw [List.cons_append, ih n]

theorem splitChunk_length_le (nl : α) (n : ℕ) (as : List α) :
    (splitChunk nl n as).1.length ≤ n := by
  rw [splitChunk_fst, List.length_take]
  exact Nat.min_le_left _ _

/-- A line that is not too long is a chunk. -/
theorem splitChunk_of_le {nl : α} {n : ℕ} {as : List α} (h : (splitLine nl as).1.length ≤ n) :
    splitChunk nl n as = splitLine nl as := by
  have hfst : (splitChunk nl n as).1 = (splitLine nl as).1 := by
    rw [splitChunk_fst, List.take_of_length_le h]
  have hsame : (splitLine nl as).1 ++ (splitChunk nl n as).2
      = (splitLine nl as).1 ++ (splitLine nl as).2 := by
    rw [← hfst, splitChunk_append, hfst, splitLine_append]
  exact Prod.ext hfst (List.append_cancel_left hsame)

/-- Of a longer line, the chunk is the beginning. -/
theorem splitChunk_of_lt {nl : α} {n : ℕ} {as : List α} (h : n < (splitLine nl as).1.length) :
    splitChunk nl n as = (as.take n, as.drop n) := by
  have hfst : (splitChunk nl n as).1 = as.take n := by
    rw [splitChunk_fst]
    conv_rhs => rw [← splitLine_append nl as]
    rw [List.take_append_of_le_length (Nat.le_of_lt h)]
  have hsame : as.take n ++ (splitChunk nl n as).2 = as.take n ++ as.drop n := by
    rw [← hfst, splitChunk_append, hfst, List.take_append_drop]
  exact Prod.ext hfst (List.append_cancel_left hsame)

theorem splitChunk_ne_nil (nl : α) {n : ℕ} (hn : 0 < n) {as : List α} (h : as ≠ []) :
    (splitChunk nl n as).1 ≠ [] := by
  rw [splitChunk_fst, ne_eq, List.take_eq_nil_iff, not_or]
  exact ⟨Nat.ne_of_gt hn, splitLine_ne_nil nl h⟩

theorem splitChunk_snd_length_lt (nl : α) {n : ℕ} (hn : 0 < n) {as : List α} (h : as ≠ []) :
    (splitChunk nl n as).2.length < as.length := by
  have happend := congrArg List.length (splitChunk_append nl n as)
  have hpos := List.length_pos_of_ne_nil (splitChunk_ne_nil nl hn h)
  rw [List.length_append] at happend
  omega

end Lines
