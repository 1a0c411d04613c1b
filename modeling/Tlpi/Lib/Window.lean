import Mathlib.Tactic
import Mathlib.Data.Int.ModEq

set_option autoImplicit false

/-! # Windows of a wrapping counter

A counter modulo `M` hands out *windows*: it answers a request for `len` numbers with its value
`start` and then adds `len`. The windows form a chain (`Chained`), and whether two of them share
a number modulo `M` depends only on their own lengths and on the sum of the lengths handed out
between them (`overlap_iff_between`).
-/

/-- The numbers `start, …, start + len - 1`; none when `len ≤ 0`. -/
structure Window where
  start : ℤ
  len : ℤ
deriving DecidableEq, Repr

namespace Window

/-- Two windows share a number modulo `M`. -/
def Overlap (M : ℤ) (u w : Window) : Prop :=
  ∃ a b, 0 ≤ a ∧ a < u.len ∧ 0 ≤ b ∧ b < w.len ∧ u.start + a ≡ w.start + b [ZMOD M]

/-- Each window starts, modulo `M`, where the one before it ends. -/
def Chained (M : ℤ) (ws : List Window) : Prop :=
  ws.IsChain fun u w => w.start ≡ u.start + u.len [ZMOD M]

/-- The lengths handed out strictly between the windows `i` and `j`. -/
def between (ws : List Window) (i j : ℕ) : ℤ :=
  (((ws.drop (i + 1)).take (j - (i + 1))).map len).sum

/-- The lengths handed out from the window `i` to the window `j`, both included. -/
def through (ws : List Window) (i j : ℕ) : ℤ :=
  (((ws.drop i).take (j + 1 - i)).map len).sum

theorem Overlap.len_pos {M : ℤ} {u w : Window} (h : Overlap M u w) : 0 < u.len ∧ 0 < w.len := by
  obtain ⟨a, b, ha, hau, hb, hbw, -⟩ := h
  omega

/-- **When two windows overlap.** The second one starts `e` numbers after the end of the first;
only `e` modulo `M` matters. -/
theorem overlap_iff {M e : ℤ} {u w : Window} (hM : 0 < M) (hu : 0 < u.len) (hw : 0 < w.len)
    (hs : w.start ≡ u.start + u.len + e [ZMOD M]) :
    Overlap M u w ↔ M < e % M + u.len + w.len := by
  have hr0 := Int.emod_nonneg e (ne_of_gt hM)
  have hrM := Int.emod_lt_of_pos e hM
  constructor
  · rintro ⟨a, b, ha, hau, hb, hbw, heq⟩
    -- `M` divides the positive number `e % M + (u.len - a) + b`, so it is at most that number
    have h1 : u.start + a ≡ u.start + u.len + e + b [ZMOD M] := by
      calc u.start + a ≡ w.start + b [ZMOD M] := heq
        _ ≡ u.start + u.len + e + b [ZMOD M] := hs.add_right b
    have h2 : M ∣ (u.start + u.len + e + b) - (u.start + a) := h1.dvd
    have h3 : M ∣ e % M + (u.len - a) + b := by
      have h4 : e % M + (u.len - a) + b
          = ((u.start + u.len + e + b) - (u.start + a)) - M * (e / M) := by
        have := Int.emod_add_mul_ediv e M
        linarith
      rw [h4]
      exact h2.sub (dvd_mul_right M _)
    have h5 := Int.le_of_dvd (by omega) h3
    omega
  · intro h
    -- the first multiple of `M` past the gap is hit at distance `M - e % M` of the gap's start
    have hkey : ∀ a b : ℤ, u.len - a + b = M - e % M →
        u.start + a ≡ w.start + b [ZMOD M] := by
      intro a b hab
      have hdvd : u.start + a ≡ u.start + u.len + e + b [ZMOD M] := by
        refine Int.modEq_iff_dvd.mpr ⟨e / M + 1, ?_⟩
        have := Int.emod_add_mul_ediv e M
        linarith
      calc u.start + a ≡ u.start + u.len + e + b [ZMOD M] := hdvd
        _ ≡ w.start + b [ZMOD M] := (hs.add_right b).symm
    by_cases hc : M - e % M ≤ u.len
    · refine ⟨u.len - (M - e % M), 0, by omega, by omega, le_refl 0, hw, hkey _ _ (by omega)⟩
    · refine ⟨0, M - e % M - u.len, le_refl 0, hu, by omega, by omega, hkey _ _ (by omega)⟩

theorem Chained.start_getElem {M : ℤ} {ws : List Window} (h : Chained M ws) {i : ℕ} :
    ∀ (d : ℕ) (hd : i + d < ws.length),
      ws[i + d].start ≡ ws[i].start + (((ws.drop i).take d).map len).sum [ZMOD M] := by
  intro d
  induction d with
  | zero =>
      intro hd
      simp [Int.ModEq.refl]
  | succ d ih =>
      intro hd
      have hlt : d < (ws.drop i).length := by
        rw [List.length_drop]
        omega
      have hstep := List.isChain_iff_getElem.mp h (i + d) hd
      have hsum : (((ws.drop i).take (d + 1)).map len).sum
          = (((ws.drop i).take d).map len).sum + ws[i + d].len := by
        rw [List.take_add_one, List.getElem?_eq_getElem hlt]
        simp
      rw [hsum]
      calc ws[i + d + 1].start
          ≡ ws[i + d].start + ws[i + d].len [ZMOD M] := hstep
        _ ≡ ws[i].start + (((ws.drop i).take d).map len).sum + ws[i + d].len [ZMOD M] :=
            (ih (by omega)).add_right _
        _ = ws[i].start + ((((ws.drop i).take d).map len).sum + ws[i + d].len) := add_assoc _ _ _

theorem between_add_len {ws : List Window} {i j : ℕ} (hij : i < j) (hj : j < ws.length) :
    (((ws.drop i).take (j - i)).map len).sum = ws[i].len + between ws i j := by
  rw [between, List.drop_eq_getElem_cons (show i < ws.length by omega),
    show j - i = (j - (i + 1)) + 1 by omega, List.take_succ_cons, List.map_cons, List.sum_cons]

theorem through_eq {ws : List Window} {i j : ℕ} (hij : i < j) (hj : j < ws.length) :
    through ws i j = ws[i].len + between ws i j + ws[j].len := by
  have hlt : j - i < (ws.drop i).length := by
    rw [List.length_drop]
    omega
  have hget : (ws.drop i)[j - i] = ws[j] := by
    rw [List.getElem_drop]
    congr 1
    omega
  rw [through, show j + 1 - i = (j - i) + 1 by omega, List.take_add_one,
    List.getElem?_eq_getElem hlt, hget, ← between_add_len hij hj]
  simp

/-- **Overlap in a chain**: decided by the two lengths and the lengths handed out between. -/
theorem overlap_iff_between {M : ℤ} (hM : 0 < M) {ws : List Window} (h : Chained M ws) {i j : ℕ}
    (hij : i < j) (hj : j < ws.length) (hu : 0 < ws[i].len) (hw : 0 < ws[j].len) :
    Overlap M ws[i] ws[j] ↔ M < between ws i j % M + ws[i].len + ws[j].len := by
  have hs := h.start_getElem (j - i) (show i + (j - i) < ws.length by omega)
  rw [between_add_len hij hj, ← add_assoc] at hs
  simp only [show i + (j - i) = j by omega] at hs
  exact overlap_iff hM hu hw hs

/-- The counter as a window: its value, nothing handed out yet. -/
def counter (s : ℤ) : Window := ⟨s, 0⟩

theorem chained_counter (M s : ℤ) : Chained M [counter s] := List.isChain_singleton _

/-- **One grant.** The counter becomes a window of length `n` and moves on by `n`. -/
theorem Chained.grant {M s t n : ℤ} {ws : List Window} (h : Chained M (ws ++ [counter s]))
    (ht : t ≡ s + n [ZMOD M]) : Chained M (ws ++ [⟨s, n⟩] ++ [counter t]) := by
  have hws := List.isChain_append.mp h
  refine List.isChain_append.mpr ⟨?_, List.isChain_singleton _, ?_⟩
  · -- only the start of the last window matters to the ones before it
    refine List.isChain_append.mpr ⟨hws.1, List.isChain_singleton _, ?_⟩
    intro u hu w hw
    obtain rfl : _ = w := by simpa using hw
    exact hws.2.2 u hu (counter s) (by simp)
  · intro u hu w hw
    obtain rfl : _ = u := by simpa using hu
    obtain rfl : _ = w := by simpa using hw
    exact ht

theorem Chained.of_counter {M s : ℤ} {ws : List Window} (h : Chained M (ws ++ [counter s])) :
    Chained M ws := (List.isChain_append.mp h).1

theorem between_nonneg {ws : List Window} (hpos : ∀ w ∈ ws, 0 ≤ w.len) (i j : ℕ) :
    0 ≤ between ws i j := by
  refine List.sum_nonneg fun x hx => ?_
  obtain ⟨w, hw, rfl⟩ := List.mem_map.mp hx
  exact hpos w (List.mem_of_mem_drop (List.mem_of_mem_take hw))

theorem emod_between_le {M : ℤ} (hM : 0 < M) {ws : List Window} (hpos : ∀ w ∈ ws, 0 ≤ w.len)
    (i j : ℕ) : between ws i j % M ≤ between ws i j := by
  have hdiv := Int.ediv_nonneg (between_nonneg hpos i j) hM.le
  have hmul : 0 ≤ M * (between ws i j / M) := mul_nonneg hM.le hdiv
  have hsplit := Int.emod_add_mul_ediv (between ws i j) M
  omega

/-- **No number twice before a wrap.** When no length is negative, two windows that share a
number have more than `M` numbers handed out from the first to the second. -/
theorem lt_through_of_overlap {M : ℤ} (hM : 0 < M) {ws : List Window} (h : Chained M ws)
    (hpos : ∀ w ∈ ws, 0 ≤ w.len) {i j : ℕ} (hij : i < j) (hj : j < ws.length)
    (ho : Overlap M ws[i] ws[j]) : M < through ws i j := by
  obtain ⟨hu, hw⟩ := ho.len_pos
  have hlt := (overlap_iff_between hM h hij hj hu hw).mp ho
  have hle := emod_between_le hM hpos i j
  rw [through_eq hij hj]
  omega

/-! ## All windows of a chain -/

/-- No two windows share a number modulo `M`. -/
def PairwiseDisjoint (M : ℤ) (ws : List Window) : Prop :=
  ∀ (i j : ℕ) (_ : i < j) (_ : j < ws.length), ¬ Overlap M ws[i] ws[j]

/-- The counter never returns into a window: for every two non-empty windows, what is handed out
between them leaves, modulo `M`, room for both. -/
def NoReturn (M : ℤ) (ws : List Window) : Prop :=
  ∀ (i j : ℕ) (_ : i < j) (_ : j < ws.length), 0 < ws[i].len → 0 < ws[j].len →
    between ws i j % M + ws[i].len + ws[j].len ≤ M

/-- The sum of the positive lengths. -/
def positiveSum (ws : List Window) : ℤ := (ws.map fun w => max w.len 0).sum

theorem Chained.pairwiseDisjoint_iff {M : ℤ} (hM : 0 < M) {ws : List Window} (h : Chained M ws) :
    PairwiseDisjoint M ws ↔ NoReturn M ws := by
  constructor
  · intro hd i j hij hj hu hw
    have := mt (overlap_iff_between hM h hij hj hu hw).mpr (hd i j hij hj)
    omega
  · intro hr i j hij hj ho
    obtain ⟨hu, hw⟩ := ho.len_pos
    have hlt := (overlap_iff_between hM h hij hj hu hw).mp ho
    have := hr i j hij hj hu hw
    omega

theorem through_le_positiveSum (ws : List Window) (i j : ℕ) :
    through ws i j ≤ positiveSum ws := by
  have hle : ∀ vs : List Window, (vs.map len).sum ≤ (vs.map fun w => max w.len 0).sum := by
    intro vs
    exact List.sum_le_sum fun w _ => le_max_left _ _
  have hsub : List.Sublist (((ws.drop i).take (j + 1 - i)).map fun w => max w.len 0)
      (ws.map fun w => max w.len 0) :=
    ((List.take_sublist _ _).trans (List.drop_sublist _ _)).map _
  refine (hle _).trans (hsub.sum_le_sum fun x hx => ?_)
  obtain ⟨w, -, rfl⟩ := List.mem_map.mp hx
  exact le_max_right _ _

/-- Without negative lengths the counter returns only after handing out `M` numbers. -/
theorem noReturn_of_nonneg {M : ℤ} (hM : 0 < M) {ws : List Window} (hpos : ∀ w ∈ ws, 0 ≤ w.len)
    (hsum : positiveSum ws ≤ M) : NoReturn M ws := by
  intro i j hij hj _ _
  have hle := emod_between_le hM hpos i j
  have hthrough := through_le_positiveSum ws i j
  rw [through_eq hij hj] at hthrough
  omega

end Window
