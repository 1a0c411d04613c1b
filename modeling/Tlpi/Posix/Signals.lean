import Mathlib.Tactic

set_option autoImplicit false

/-! # Signals

Signal numbers, and the signals pending for a process: a standard signal is pending once at most,
realtime signals are queued, up to a limit (RLIMIT_SIGPENDING). SIGCONT and the signals that stop a
process discard each other.
-/

namespace Tlpi

/-- A signal number. -/
structure Signal where
  num : ℕ
  pos : 1 ≤ num
  le : num ≤ 64
deriving DecidableEq, Repr

namespace Signal

def SIGINT : Signal := ⟨2, by decide, by decide⟩

def SIGQUIT : Signal := ⟨3, by decide, by decide⟩

def SIGKILL : Signal := ⟨9, by decide, by decide⟩

def SIGUSR1 : Signal := ⟨10, by decide, by decide⟩

def SIGTERM : Signal := ⟨15, by decide, by decide⟩

def SIGCONT : Signal := ⟨18, by decide, by decide⟩

def SIGSTOP : Signal := ⟨19, by decide, by decide⟩

/-- SIGSTOP, SIGTSTP, SIGTTIN and SIGTTOU. -/
def isStop (sig : Signal) : Bool := decide (19 ≤ sig.num ∧ sig.num ≤ 22)

def isRealtime (sig : Signal) : Bool := decide (32 ≤ sig.num)

/-- The two signals that can neither be caught nor blocked. -/
def unblockable (sig : Signal) : Bool := decide (sig = SIGKILL ∨ sig = SIGSTOP)

/-- Sending `sig` discards a pending `sig'`. -/
def discards (sig sig' : Signal) : Bool :=
  (decide (sig = SIGCONT) && sig'.isStop) || (sig.isStop && decide (sig' = SIGCONT))

/-- No signal discards it. -/
def lasting (sig : Signal) : Bool := !(decide (sig = SIGCONT) || sig.isStop)

end Signal

/-- What is known about a signal that was sent. -/
structure SigInfo where
  si_signo : Signal
  si_code : ℤ
  si_value : ℤ
  si_pid : ℕ
  si_uid : ℕ
deriving DecidableEq, Repr

def SI_USER : ℤ := 0

def SI_QUEUE : ℤ := -1

/-- What is left of a signal that cannot be queued: its number. -/
def SigInfo.bare (sig : Signal) : SigInfo := ⟨sig, SI_USER, 0, 0, 0⟩

/-- At the limit of the queued signals, only `kill` can send a realtime signal. No process that
calls `kill` has the ID 0, so that a signal that is sent differs from a bare one. -/
def SigInfo.Sendable (full : Bool) (si : SigInfo) : Prop :=
  si ≠ .bare si.si_signo ∧
    (full = true → si.si_signo.isRealtime = true → si.si_code = SI_USER)

instance (full : Bool) (si : SigInfo) : Decidable (si.Sendable full) :=
  inferInstanceAs (Decidable (_ ∧ _))

/-- The pending signals after `si` was sent; `full` says whether the limit of the queued signals is
reached. A bare signal is lost when one with its number is queued. -/
def addPending (full : Bool) (pending : List SigInfo) (si : SigInfo) : List SigInfo :=
  let kept := pending.filter fun p => !si.si_signo.discards p.si_signo
  if si.si_signo.isRealtime = true ∧ full = false then kept.erase (.bare si.si_signo) ++ [si]
  else if ∃ p ∈ kept, p.si_signo = si.si_signo then kept
  -- a standard signal that `kill` sends is queued even so
  else if full = true ∧ (si.si_signo.isRealtime = true ∨ si.si_code < 0) then
    kept ++ [.bare si.si_signo]
  else kept ++ [si]

/-- The first pending signal with a number, and those that stay pending. -/
def takePending (pending : List SigInfo) (sig : Signal) : Option (SigInfo × List SigInfo) :=
  (pending.find? fun p => decide (p.si_signo = sig)).map fun si => (si, pending.erase si)

/-! ## How often a signal is pending -/

def pendingCount (pending : List SigInfo) (sig : Signal) : ℕ :=
  pending.countP fun p => decide (p.si_signo = sig)

theorem pendingCount_pos_iff {pending : List SigInfo} {sig : Signal} :
    0 < pendingCount pending sig ↔ ∃ p ∈ pending, p.si_signo = sig := by
  simp [pendingCount, List.countP_pos_iff]

namespace Signal

theorem not_discards_self (sig : Signal) : sig.discards sig = false := by
  rw [discards, Bool.or_eq_false_iff]
  have hnot : SIGCONT.isStop = false := by decide
  by_cases h : sig = SIGCONT
  · subst h
    exact ⟨hnot, by rw [hnot, Bool.false_and]⟩
  · exact ⟨by rw [decide_eq_false h, Bool.false_and], by rw [decide_eq_false h, Bool.and_false]⟩

theorem not_discards_of_lasting (sig : Signal) {sig' : Signal} (h : sig'.lasting = true) :
    sig.discards sig' = false := by
  rw [lasting, Bool.not_eq_true', Bool.or_eq_false_iff] at h
  rw [discards, h.1, h.2, Bool.and_false, Bool.and_false, Bool.or_false]

/-- Realtime signals are not discarded. -/
theorem lasting_of_isRealtime {sig : Signal} (h : sig.isRealtime = true) : sig.lasting = true := by
  have hge : 32 ≤ sig.num := of_decide_eq_true h
  have hcont : sig ≠ SIGCONT := by
    rintro rfl
    exact absurd hge (by decide)
  rw [lasting, decide_eq_false hcont, isStop, decide_eq_false (by omega)]
  rfl

end Signal

/-- How often `sig` stays pending when `sig'` is sent. -/
theorem pendingCount_kept (pending : List SigInfo) (sig' sig : Signal) :
    pendingCount (pending.filter fun p => !sig'.discards p.si_signo) sig =
      if sig'.discards sig then 0 else pendingCount pending sig := by
  rw [pendingCount, List.countP_filter, pendingCount]
  split
  · rename_i hdiscards
    refine List.countP_eq_zero.mpr fun p _ hp => ?_
    obtain ⟨hsig, hkept⟩ := Bool.and_eq_true_iff.mp hp
    rw [of_decide_eq_true hsig, hdiscards] at hkept
    cases hkept
  · rename_i hdiscards
    refine List.countP_congr fun p _ => ?_
    rw [Bool.and_eq_true, decide_eq_true_eq]
    refine ⟨And.left, fun hsig => ⟨hsig, ?_⟩⟩
    rw [hsig, (Bool.not_eq_true _).mp hdiscards]
    rfl

theorem pendingCount_append (pending pending' : List SigInfo) (sig : Signal) :
    pendingCount (pending ++ pending') sig = pendingCount pending sig + pendingCount pending' sig :=
  List.countP_append

theorem pendingCount_singleton (si : SigInfo) (sig : Signal) :
    pendingCount [si] sig = if si.si_signo = sig then 1 else 0 := by
  by_cases h : si.si_signo = sig <;> simp [pendingCount, h]

theorem pendingCount_erase_of_ne (pending : List SigInfo) {si : SigInfo} {sig : Signal}
    (h : si.si_signo ≠ sig) : pendingCount (pending.erase si) sig = pendingCount pending sig := by
  by_cases hmem : si ∈ pending
  · have hperm := (List.perm_cons_erase hmem).countP_eq fun p => decide (p.si_signo = sig)
    rw [pendingCount, pendingCount, hperm, List.countP_cons_of_neg (by simpa using h)]
  · rw [List.erase_of_not_mem hmem]

theorem pendingCount_addPending_of_ne (full : Bool) (pending : List SigInfo) {si : SigInfo}
    {sig : Signal} (h : si.si_signo ≠ sig) :
    pendingCount (addPending full pending si) sig =
      if si.si_signo.discards sig then 0 else pendingCount pending sig := by
  have hbare : (SigInfo.bare si.si_signo).si_signo ≠ sig := h
  rw [← pendingCount_kept, addPending]
  split
  · rw [pendingCount_append, pendingCount_erase_of_ne _ hbare, pendingCount_singleton, if_neg h,
      Nat.add_zero]
  split
  · rfl
  split
  · rw [pendingCount_append, pendingCount_singleton, if_neg hbare, Nat.add_zero]
  · rw [pendingCount_append, pendingCount_singleton, if_neg h, Nat.add_zero]

/-- The signal `si` becomes one with a signal that is pending. -/
def Merges (full : Bool) (pending : List SigInfo) (si : SigInfo) : Prop :=
  0 < pendingCount pending si.si_signo ∧
    (si.si_signo.isRealtime = true → full = true ∨ .bare si.si_signo ∈ pending)

instance (full : Bool) (pending : List SigInfo) (si : SigInfo) :
    Decidable (Merges full pending si) := inferInstanceAs (Decidable (_ ∧ _))

/-- A realtime signal is queued unless the limit is or was reached; another one is pending once,
however often it is sent. -/
theorem pendingCount_addPending (full : Bool) (pending : List SigInfo) (si : SigInfo) :
    pendingCount (addPending full pending si) si.si_signo =
      if Merges full pending si then pendingCount pending si.si_signo
      else pendingCount pending si.si_signo + 1 := by
  have hkept : ∀ p, p.si_signo = si.si_signo →
      (p ∈ pending.filter (fun p => !si.si_signo.discards p.si_signo) ↔ p ∈ pending) :=
    fun p hp => by simp [hp, Signal.not_discards_self]
  have hcount := pendingCount_kept pending si.si_signo si.si_signo
  rw [Signal.not_discards_self, if_neg Bool.false_ne_true] at hcount
  have hpos : (∃ p ∈ pending.filter (fun p => !si.si_signo.discards p.si_signo),
      p.si_signo = si.si_signo) ↔ 0 < pendingCount pending si.si_signo := by
    rw [← pendingCount_pos_iff, hcount]
  have hlast : ∀ si', si'.si_signo = si.si_signo → pendingCount
      (pending.filter (fun p => !si.si_signo.discards p.si_signo) ++ [si']) si.si_signo =
        pendingCount pending si.si_signo + 1 := fun si' hsi' => by
    rw [pendingCount_append, pendingCount_singleton, if_pos hsi', hcount]
  rw [addPending]
  split
  · rename_i hqueue
    rw [pendingCount_append, pendingCount_singleton, if_pos rfl]
    by_cases hbare : .bare si.si_signo ∈ pending
    · have hmem := (hkept (.bare si.si_signo) rfl).mpr hbare
      have hperm := (List.perm_cons_erase hmem).countP_eq fun p =>
        decide (p.si_signo = si.si_signo)
      rw [List.countP_cons_of_pos (by simp [SigInfo.bare])] at hperm
      have hone : pendingCount pending si.si_signo = _ + 1 := hcount.symm.trans hperm
      rw [if_pos ⟨by omega, fun _ => Or.inr hbare⟩]
      exact hone.symm
    · rw [List.erase_of_not_mem (fun h => hbare ((hkept (.bare si.si_signo) rfl).mp h)), hcount,
        if_neg]
      intro hmerges
      rcases hmerges.2 hqueue.1 with hfull | hmem
      · rw [hqueue.2] at hfull
        cases hfull
      · exact hbare hmem
  · rename_i hqueue
    have hfull : si.si_signo.isRealtime = true → full = true := fun hreal => by
      by_contra hnot
      exact hqueue ⟨hreal, Bool.not_eq_true _ ▸ hnot⟩
    split
    · rename_i hmem
      rw [hcount, if_pos ⟨hpos.mp hmem, fun hreal => Or.inl (hfull hreal)⟩]
    · rename_i hmem
      have hnot : ¬ Merges full pending si := fun h => hmem (hpos.mpr h.1)
      rw [if_neg hnot]
      split
      · exact hlast _ rfl
      · exact hlast _ rfl

/-- A signal that was sent is pending. -/
theorem pendingCount_addPending_pos (full : Bool) (pending : List SigInfo) (si : SigInfo) :
    0 < pendingCount (addPending full pending si) si.si_signo := by
  rw [pendingCount_addPending]
  split
  · rename_i h
    exact h.1
  · exact Nat.succ_pos _

/-- A bare signal comes from a signal that was sent at the limit. -/
theorem bare_mem_addPending {full : Bool} {pending : List SigInfo} {si : SigInfo} {sig : Signal}
    (hne : si ≠ .bare si.si_signo) (h : .bare sig ∈ addPending full pending si) :
    .bare sig ∈ pending ∨ (full = true ∧ si.si_signo = sig) := by
  have hold : ∀ {l : List SigInfo},
      l.Sublist (pending.filter fun p => !si.si_signo.discards p.si_signo) →
      .bare sig ∈ l → .bare sig ∈ pending := fun hl hmem =>
    List.mem_of_mem_filter (hl.subset hmem)
  have hnot : SigInfo.bare sig ≠ si := by
    rintro rfl
    exact hne rfl
  rw [addPending] at h
  split at h
  · rcases List.mem_append.mp h with hmem | hmem
    · exact Or.inl (hold List.erase_sublist hmem)
    · exact absurd (List.mem_singleton.mp hmem) hnot
  split at h
  · exact Or.inl (hold (List.Sublist.refl _) h)
  split at h
  · rename_i hlost
    rcases List.mem_append.mp h with hmem | hmem
    · exact Or.inl (hold (List.Sublist.refl _) hmem)
    · exact Or.inr ⟨hlost.1, (congrArg SigInfo.si_signo (List.mem_singleton.mp hmem)).symm⟩
  · rcases List.mem_append.mp h with hmem | hmem
    · exact Or.inl (hold (List.Sublist.refl _) hmem)
    · exact absurd (List.mem_singleton.mp hmem) hnot

theorem takePending_eq_some {pending rest : List SigInfo} {sig : Signal} {si : SigInfo}
    (h : takePending pending sig = some (si, rest)) :
    si.si_signo = sig ∧ si ∈ pending ∧ rest = pending.erase si := by
  obtain ⟨found, hfound, heq⟩ := Option.map_eq_some_iff.mp h
  obtain ⟨rfl, rfl⟩ := Prod.mk.inj heq
  have hsig := List.find?_some hfound
  exact ⟨of_decide_eq_true hsig, List.mem_of_find?_eq_some hfound, rfl⟩

theorem pendingCount_takePending {pending rest : List SigInfo} {sig : Signal} {si : SigInfo}
    (h : takePending pending sig = some (si, rest)) (sig' : Signal) :
    pendingCount pending sig' = pendingCount rest sig' + if sig = sig' then 1 else 0 := by
  obtain ⟨rfl, hmem, rfl⟩ := takePending_eq_some h
  have hperm := (List.perm_cons_erase hmem).countP_eq fun p => decide (p.si_signo = sig')
  rw [pendingCount, hperm, List.countP_cons]
  simp [pendingCount]

/-! ## The order of signals -/

/-- The signals with one number. -/
def ofNum (sig : Signal) (sis : List SigInfo) : List SigInfo :=
  sis.filter fun p => decide (p.si_signo = sig)

theorem ofNum_append (sig : Signal) (sis sis' : List SigInfo) :
    ofNum sig (sis ++ sis') = ofNum sig sis ++ ofNum sig sis' := List.filter_append _ _

theorem ofNum_singleton (sig : Signal) (si : SigInfo) :
    ofNum sig [si] = if si.si_signo = sig then [si] else [] := by
  by_cases h : si.si_signo = sig <;> simp [ofNum, h]

theorem ofNum_kept_sublist (sig sig' : Signal) (pending : List SigInfo) :
    (ofNum sig' (pending.filter fun p => !sig.discards p.si_signo)).Sublist (ofNum sig' pending) :=
  List.filter_sublist.filter _

/-- The pending signals with one number, after one was sent that keeps its data: it comes last, or
is dropped. -/
theorem ofNum_addPending_sublist {pending : List SigInfo} {si : SigInfo} {full : Bool}
    {sig : Signal} (h : full = true → si.si_signo ≠ sig) :
    (ofNum sig (addPending full pending si)).Sublist (ofNum sig pending ++ ofNum sig [si]) := by
  have hkept := ofNum_kept_sublist si.si_signo sig pending
  rw [addPending]
  split
  · rw [ofNum_append]
    exact ((List.erase_sublist.filter _).trans hkept).append (List.Sublist.refl _)
  split
  · exact hkept.trans (List.sublist_append_left _ _)
  split
  · rename_i hlost
    have hnil : ofNum sig [.bare si.si_signo] = [] := by
      rw [ofNum_singleton, if_neg (show ¬ (SigInfo.bare _).si_signo = sig from h hlost.1)]
    rw [ofNum_append, hnil, List.append_nil]
    exact hkept.trans (List.sublist_append_left _ _)
  · rw [ofNum_append]
    exact hkept.append (List.Sublist.refl _)

/-- Realtime signals are queued, one after the other. -/
theorem ofNum_addPending_realtime {pending : List SigInfo} {si : SigInfo} {full : Bool}
    {sig : Signal} (hsig : sig.isRealtime = true) (hfull : full = true → si.si_signo ≠ sig)
    (hbare : .bare sig ∉ pending) :
    ofNum sig (addPending full pending si) = ofNum sig pending ++ ofNum sig [si] := by
  have hkept : ofNum sig (pending.filter fun p => !si.si_signo.discards p.si_signo) =
      ofNum sig pending := by
    rw [ofNum, List.filter_filter, ofNum]
    refine List.filter_congr fun p _ => ?_
    by_cases hp : p.si_signo = sig
    · rw [hp, Signal.not_discards_of_lasting _ (Signal.lasting_of_isRealtime hsig), Bool.not_false,
        Bool.and_true]
    · rw [decide_eq_false hp, Bool.false_and]
  by_cases hsi : si.si_signo = sig
  · subst hsi
    have hempty : full = false := by
      by_contra hnot
      exact hfull (Bool.not_eq_false _ ▸ hnot) rfl
    rw [addPending, if_pos ⟨hsig, hempty⟩, ofNum_append,
      List.erase_of_not_mem (fun hmem => hbare (List.mem_of_mem_filter hmem)), hkept]
  · have hnil : ∀ si' : SigInfo, si'.si_signo = si.si_signo → ofNum sig [si'] = [] :=
      fun si' hsi' => by rw [ofNum_singleton, if_neg (hsi' ▸ hsi)]
    have herase : ofNum sig ((pending.filter fun p => !si.si_signo.discards p.si_signo).erase
        (.bare si.si_signo)) = ofNum sig pending := by
      rw [ofNum, ← List.erase_filter, List.erase_of_not_mem]
      · exact hkept
      · exact fun hmem => hsi (of_decide_eq_true (List.mem_filter.mp hmem).2)
    rw [hnil si rfl, List.append_nil, addPending]
    split
    · rw [ofNum_append, herase, hnil si rfl, List.append_nil]
    split
    · exact hkept
    split
    · rw [ofNum_append, hkept, hnil (.bare si.si_signo) rfl, List.append_nil]
    · rw [ofNum_append, hkept, hnil si rfl, List.append_nil]

/-- Of the signals with one number, the first one is taken. -/
theorem ofNum_takePending {pending rest : List SigInfo} {sig : Signal} {si : SigInfo}
    (h : takePending pending sig = some (si, rest)) (sig' : Signal) :
    ofNum sig' pending = ofNum sig' [si] ++ ofNum sig' rest := by
  obtain ⟨found, hfound, heq⟩ := Option.map_eq_some_iff.mp h
  obtain ⟨rfl, rfl⟩ := Prod.mk.inj heq
  obtain ⟨hsig, before, after, rfl, hbefore⟩ := List.find?_eq_some_iff_append.mp hfound
  have hsig : found.si_signo = sig := of_decide_eq_true hsig
  -- No signal before it has the number.
  have hnone : ∀ p ∈ before, p.si_signo ≠ sig := fun p hp => by simpa using hbefore p hp
  have hnot : found ∉ before := fun hmem => hnone found hmem hsig
  rw [List.erase_append_right _ hnot, List.erase_cons_head, ofNum_singleton]
  split
  · rename_i heq
    have hnil : ofNum sig' before = [] := by
      rw [ofNum, List.filter_eq_nil_iff]
      intro p hp
      simpa [← heq, hsig] using hnone p hp
    rw [ofNum_append, ofNum_append, hnil, ← List.singleton_append, ofNum_append, ofNum_singleton,
      if_pos heq]
    rfl
  · rename_i hne
    rw [ofNum_append, ofNum_append, ← List.singleton_append, ofNum_append, ofNum_singleton,
      if_neg hne]
    rfl

end Tlpi
