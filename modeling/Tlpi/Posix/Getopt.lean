import Tlpi.Posix.Base

set_option autoImplicit false

/-! # `getopt`

A loop `while ((opt = getopt(argc, argv, optstring)) != -1)` as the list of what its calls return,
and the arguments that `argv[optind]`, `argv[optind + 1]`, ... are after it. This is the GNU
`getopt`: options may stand between and after the operands, which it moves to the end of `argv` in
their order. An option that takes an argument has it in the rest of its word or in the next word;
`--` ends the options, and the word `-` is an operand. Optional arguments (`::`) are left out: no
program here has one.
-/

namespace Tlpi

/-- What a call of `getopt` returns: an option character, with `optarg` if the option takes an
argument, or `'?'` for an unknown option or a missing argument. -/
inductive Opt where
  | opt (c : UInt8) (optarg : Option (List UInt8))
  | bad
deriving DecidableEq, Repr

/-- All options of a command line, and the operands. -/
structure Parsed where
  opts : List Opt
  operands : List (List UInt8)
deriving DecidableEq, Repr

/-- Whether `c` is an option, and if so whether it takes an argument. -/
def optLookup (optstring : List UInt8) (c : UInt8) : Option Bool :=
  if c = chr ':' ∨ c = chr ';' then none
  else
    match optstring.dropWhile (· != c) with
    | [] => none
    | _ :: next => some (next.head? == some (chr ':'))

/-- The options in one word, without its `-`. The second part is an option that still wants its
argument. -/
def cluster (optstring : List UInt8) : List UInt8 → List Opt × Option UInt8
  | [] => ([], none)
  | c :: cs =>
      match optLookup optstring c with
      | none => (.bad :: (cluster optstring cs).1, (cluster optstring cs).2)
      | some false => (.opt c none :: (cluster optstring cs).1, (cluster optstring cs).2)
      | some true => if cs = [] then ([], some c) else ([.opt c (some cs)], none)

/-- A word that starts with `-` and has more characters. -/
def isOption : List UInt8 → Bool
  | c :: _ :: _ => c == chr '-'
  | _ => false

/-- All calls of `getopt` on the words `argv[1]`, `argv[2]`, ... -/
def getopt (optstring : List UInt8) : List (List UInt8) → Parsed
  | [] => ⟨[], []⟩
  | w :: ws =>
      if w = str "--" then ⟨[], ws⟩
      else if isOption w then
        match (cluster optstring w.tail).2 with
        | none =>
            ⟨(cluster optstring w.tail).1 ++ (getopt optstring ws).opts,
              (getopt optstring ws).operands⟩
        | some c =>
            match ws with
            | [] => ⟨(cluster optstring w.tail).1 ++ [.bad], []⟩
            | optarg :: ws =>
                ⟨(cluster optstring w.tail).1
                    ++ .opt c (some optarg) :: (getopt optstring ws).opts,
                  (getopt optstring ws).operands⟩
      else ⟨(getopt optstring ws).opts, w :: (getopt optstring ws).operands⟩

/-- The words that give an option: its argument in a word of its own. -/
def Opt.words : Opt → List (List UInt8)
  | .opt c none => [[chr '-', c]]
  | .opt c (some optarg) => [[chr '-', c], optarg]
  | .bad => []

/-- The option is one of the string, with an argument exactly if it takes one. -/
def Opt.Valid (optstring : List UInt8) : Opt → Prop
  | .opt c optarg => c ≠ chr '-' ∧ optLookup optstring c = some optarg.isSome
  | .bad => False

/-! ## What `getopt` returns -/

/-- An option is a character of the string, and not one of its marks. -/
theorem optLookup_mem {optstring : List UInt8} {c : UInt8} {takes : Bool}
    (h : optLookup optstring c = some takes) : c ∈ optstring ∧ c ≠ chr ':' := by
  unfold optLookup at h
  split at h
  · cases h
  · rename_i hmark
    refine ⟨?_, fun heq => hmark (Or.inl heq)⟩
    by_contra hnot
    have hnil : optstring.dropWhile (· != c) = [] := by
      rw [List.dropWhile_eq_nil_iff]
      intro x hx
      have hne : x ≠ c := fun heq => hnot (heq ▸ hx)
      simpa using hne
    rw [hnil] at h
    cases h

theorem cluster_lookup {optstring cs : List UInt8} {c : UInt8} {optarg : Option (List UInt8)}
    (h : .opt c optarg ∈ (cluster optstring cs).1) :
    optLookup optstring c = some optarg.isSome := by
  induction cs with
  | nil => cases h
  | cons d cs ih =>
      rw [cluster] at h
      split at h
      · simp only [List.mem_cons, reduceCtorEq, false_or] at h
        exact ih h
      · rename_i hd
        rcases List.mem_cons.mp h with heq | h
        · cases heq
          exact hd
        · exact ih h
      · rename_i hd
        split at h
        · cases h
        · cases List.mem_singleton.mp h
          exact hd

theorem cluster_wants {optstring cs : List UInt8} {c : UInt8}
    (h : (cluster optstring cs).2 = some c) : optLookup optstring c = some true := by
  induction cs with
  | nil => cases h
  | cons d cs ih =>
      rw [cluster] at h
      split at h
      · exact ih h
      · exact ih h
      · rename_i hd
        split at h
        · cases h
          exact hd
        · cases h

theorem getopt_end (optstring : List UInt8) (operands : List (List UInt8)) :
    getopt optstring (str "--" :: operands) = ⟨[], operands⟩ := by
  unfold getopt
  exact if_pos rfl

/-- An option returned by `getopt` is one of the string, with an argument exactly if it takes
one. -/
theorem getopt_lookup {optstring : List UInt8} (ws : List (List UInt8)) {c : UInt8}
    {optarg : Option (List UInt8)} (h : .opt c optarg ∈ (getopt optstring ws).opts) :
    optLookup optstring c = some optarg.isSome := by
  induction ws using getopt.induct optstring with
  | case1 => cases h
  | case2 ws =>
      rw [getopt_end] at h
      cases h
  | case3 w ws hend hopt hcl ih =>
      rw [getopt, if_neg hend, if_pos hopt, hcl] at h
      rcases List.mem_append.mp h with h | h
      · exact cluster_lookup h
      · exact ih h
  | case4 w hend hopt d hcl =>
      rw [getopt, if_neg hend, if_pos hopt, hcl] at h
      rcases List.mem_append.mp h with h | h
      · exact cluster_lookup h
      · simp at h
  | case5 w hend hopt d hcl word ws ih =>
      rw [getopt, if_neg hend, if_pos hopt, hcl] at h
      rcases List.mem_append.mp h with h | h
      · exact cluster_lookup h
      · rcases List.mem_cons.mp h with heq | h
        · cases heq
          exact cluster_wants hcl
        · exact ih h
  | case6 w ws hend hopt ih =>
      rw [getopt, if_neg hend, if_neg hopt] at h
      exact ih h

/-- A word of one option. -/
theorem cluster_of_lookup {optstring : List UInt8} {c : UInt8} {takes : Bool}
    (h : optLookup optstring c = some takes) :
    cluster optstring [c] = if takes then ([], some c) else ([.opt c none], none) := by
  cases takes <;> simp [cluster, h]

theorem word_ne_end {c : UInt8} (hdash : c ≠ chr '-') : [chr '-', c] ≠ str "--" := by
  intro heq
  exact hdash (List.cons.inj (List.cons.inj heq).2).1

theorem getopt_flag {optstring : List UInt8} {c : UInt8} (hdash : c ≠ chr '-')
    (h : optLookup optstring c = some false) (ws : List (List UInt8)) :
    getopt optstring ([chr '-', c] :: ws)
      = ⟨.opt c none :: (getopt optstring ws).opts, (getopt optstring ws).operands⟩ := by
  conv_lhs => unfold getopt
  rw [if_neg (word_ne_end hdash), if_pos (by rfl), List.tail_cons, cluster_of_lookup h]
  rfl

theorem getopt_optarg {optstring : List UInt8} {c : UInt8} (hdash : c ≠ chr '-')
    (h : optLookup optstring c = some true) (optarg : List UInt8) (ws : List (List UInt8)) :
    getopt optstring ([chr '-', c] :: optarg :: ws)
      = ⟨.opt c (some optarg) :: (getopt optstring ws).opts, (getopt optstring ws).operands⟩ := by
  conv_lhs => unfold getopt
  rw [if_neg (word_ne_end hdash), if_pos (by rfl), List.tail_cons, cluster_of_lookup h]
  rfl

/-- **`getopt` reads back the options a command line was made of**, whatever the operands. -/
theorem getopt_words {optstring : List UInt8} {opts : List Opt}
    (h : ∀ o ∈ opts, o.Valid optstring) (operands : List (List UInt8)) :
    getopt optstring (opts.flatMap Opt.words ++ str "--" :: operands) = ⟨opts, operands⟩ := by
  induction opts with
  | nil => exact getopt_end optstring operands
  | cons o opts ih =>
      have hrest := ih fun x hx => h x (List.mem_cons_of_mem o hx)
      have ho := h o List.mem_cons_self
      cases o with
      | bad => exact absurd ho id
      | opt c optarg =>
          obtain ⟨hdash, hlookup⟩ := ho
          rw [List.flatMap_cons, List.append_assoc]
          cases optarg with
          | none =>
              rw [Opt.words, List.singleton_append, getopt_flag hdash hlookup, hrest]
          | some optarg =>
              rw [Opt.words, List.cons_append, List.singleton_append,
                getopt_optarg hdash hlookup, hrest]

/-! ## The loop around `getopt` -/

section Loop

variable {σ : Type}

/-- `while ((opt = getopt(argc, argv, optstring)) != -1) switch (opt) ...`. The case of an option
character is `handle`; `none` is a usage error, which is also what follows from `'?'`. -/
def optLoop (handle : UInt8 → Option (List UInt8) → σ → Option σ) : List Opt → σ → Option σ
  | [], vars => some vars
  | .bad :: _, _ => none
  | .opt c optarg :: opts, vars => (handle c optarg vars).bind (optLoop handle opts)

/-- A loop that handles every option of its string gets through a command line without `'?'`. -/
theorem optLoop_isSome {handle : UInt8 → Option (List UInt8) → σ → Option σ}
    {optstring : List UInt8} {ws : List (List UInt8)}
    (hhandle : ∀ c optarg vars, c ∈ optstring → c ≠ chr ':' → (handle c optarg vars).isSome = true)
    (hgood : Opt.bad ∉ (getopt optstring ws).opts) (vars : σ) :
    ∃ vars', optLoop handle (getopt optstring ws).opts vars = some vars' := by
  have hlookup := @getopt_lookup optstring ws
  generalize (getopt optstring ws).opts = opts at hgood hlookup
  induction opts generalizing vars with
  | nil => exact ⟨vars, rfl⟩
  | cons o opts ih =>
      cases o with
      | bad => exact absurd List.mem_cons_self hgood
      | opt c optarg =>
          obtain ⟨hmem, hcolon⟩ := optLookup_mem (hlookup List.mem_cons_self)
          obtain ⟨vars', hvars'⟩ := Option.isSome_iff_exists.mp (hhandle c optarg vars hmem hcolon)
          obtain ⟨final, hfinal⟩ := ih vars' (fun h => hgood (List.mem_cons_of_mem _ h))
            (fun h => hlookup (List.mem_cons_of_mem _ h))
          refine ⟨final, ?_⟩
          rw [optLoop, hvars', Option.bind_some, hfinal]

end Loop

end Tlpi
