import Tlpi.Posix.Strtol

set_option autoImplicit false

/-! # Ids and names of users and groups (users_and_groups/ugid_functions.c)

The functions for users and those for groups are the same but for the database they look into. A
name that `strtol` consumes to its end is taken for an id, whatever the database says about it; the
`long` it returns is narrowed to the 32 bits of `uid_t` and `gid_t` without a check.

`userIdFromName` calls `strol`, which does not exist; it is read as `strtol`.
-/

namespace Tlpi.UgidFunctions

open Decimal

/-- `uid_t` and `gid_t`. -/
abbrev Id := BitVec 32

/-- `return -1`. -/
def errorId : Id := BitVec.ofInt 32 (-1)

/-- What the functions use of `struct passwd`. -/
structure Passwd where
  pw_name : List UInt8
  pw_uid : Id
deriving DecidableEq, Repr

/-- What the functions use of `struct group`. -/
structure Group where
  gr_name : List UInt8
  gr_gid : Id
deriving DecidableEq, Repr

/-- A kind of database entry. -/
structure Kind (ε : Type) where
  name : ε → List UInt8
  id : ε → Id

def passwd : Kind Passwd := ⟨Passwd.pw_name, Passwd.pw_uid⟩

def group : Kind Group := ⟨Group.gr_name, Group.gr_gid⟩

section Functions

variable {ε : Type} (K : Kind ε) (entries : List ε)

/-- `getpwuid` and `getgrgid`; `none` is `NULL`. -/
def getById (id : Id) : Option ε := entries.find? fun e => decide (K.id e = id)

/-- `getpwnam` and `getgrnam`. -/
def getByName (name : List UInt8) : Option ε := entries.find? fun e => decide (K.name e = name)

def nameFromId (id : Id) : Option (List UInt8) := (getById K entries id).map K.name

/-- `none` is a `NULL` pointer. -/
def idFromName : Option (List UInt8) → Id
  | none => errorId
  | some [] => errorId
  | some (c :: cs) =>
      let (u, endptr) := strtol (c :: cs)
      -- `*endptr == '\0'`: the `long` is returned as an id
      if endptr = [] then BitVec.ofInt 32 u
      else
        match getByName K entries (c :: cs) with
        | none => errorId
        | some e => K.id e

end Functions

def userNameFromId : List Passwd → Id → Option (List UInt8) := nameFromId passwd

def userIdFromName : List Passwd → Option (List UInt8) → Id := idFromName passwd

def groupNameFromId : List Group → Id → Option (List UInt8) := nameFromId group

def groupIdFromName : List Group → Option (List UInt8) → Id := idFromName group

/-! ## Numerals -/

variable {ε : Type} {K : Kind ε} {entries : List ε} {s : List UInt8}

/-- A name that `strtol` consumes is narrowed, without a look into the database. -/
theorem idFromName_consumed (hne : s ≠ []) (h : (strtol s).2 = []) :
    idFromName K entries (some s) = BitVec.ofInt 32 (strtol s).1 := by
  obtain ⟨c, cs, rfl⟩ := List.exists_cons_of_ne_nil hne
  simp only [idFromName, if_pos h]

/-- What becomes of a numeral: it saturates at `LONG_MAX` and loses its upper bits. -/
theorem idFromName_digits (hdigits : s.all isDigit = true) (hne : s ≠ []) :
    idFromName K entries (some s)
      = if value 10 s < 2 ^ 63 then BitVec.ofNat 32 (value 10 s) else errorId := by
  have hstrtol : strtol s = (clampLong (value 10 s), []) := by
    simpa using @strtol_digits s [] hdigits hne (by simp)
  rw [idFromName_consumed hne (by rw [hstrtol]), hstrtol]
  by_cases hlt : value 10 s < 2 ^ 63
  · have hclamp : clampLong (value 10 s) = (value 10 s : ℤ) := by
      simp only [clampLong, LONG_MAX, LONG_MIN]
      omega
    rw [if_pos hlt, hclamp]
    exact BitVec.ofInt_natCast 32 (value 10 s)
  · have hclamp : clampLong (value 10 s) = LONG_MAX := by
      simp only [clampLong, LONG_MAX, LONG_MIN]
      omega
    rw [if_neg hlt, hclamp]
    decide

/-- The id a number stands for; the largest one is the error value. -/
def idOfNumber (v : ℕ) : Id := if v < 2 ^ 32 - 1 then BitVec.ofNat 32 v else errorId

/-- The numeral `s` is not mapped to another id; only a zero yields the id 0. -/
def NumeralKept (idFromName : Option (List UInt8) → Id) (s : List UInt8) : Prop :=
  idFromName (some s) = idOfNumber (value 10 s) ∧
    (idFromName (some s) = 0 → value 10 s = 0)

/-- The narrowing of `v`, after saturation, is `v` or the error value. -/
def Narrows (v : ℕ) : Prop := v < 2 ^ 32 ∨ 2 ^ 63 ≤ v ∨ v % 2 ^ 32 = 2 ^ 32 - 1

theorem errorId_toNat : errorId.toNat = 2 ^ 32 - 1 := by decide

theorem idOfNumber_toNat (v : ℕ) : (idOfNumber v).toNat = min v (2 ^ 32 - 1) := by
  unfold idOfNumber
  split
  · rw [BitVec.toNat_ofNat]
    omega
  · rw [errorId_toNat]
    omega

theorem numeralKept_iff (hdigits : s.all isDigit = true) (hne : s ≠ []) :
    NumeralKept (idFromName K entries) s ↔ Narrows (value 10 s) := by
  have hid := @idFromName_digits ε K entries s hdigits hne
  have hnat : (idFromName K entries (some s)).toNat
      = if value 10 s < 2 ^ 63 then value 10 s % 2 ^ 32 else 2 ^ 32 - 1 := by
    rw [hid]
    split
    · exact BitVec.toNat_ofNat _ _
    · exact errorId_toNat
  have hkept : idFromName K entries (some s) = idOfNumber (value 10 s) ↔ Narrows (value 10 s) := by
    rw [← BitVec.toNat_inj, hnat, idOfNumber_toNat, Narrows]
    split <;> omega
  refine ⟨fun h => hkept.mp h.1, fun h => ⟨hkept.mpr h, fun hzero => ?_⟩⟩
  have hmin : (idOfNumber (value 10 s)).toNat = 0 := by
    rw [← hkept.mpr h, hzero]
    rfl
  rw [idOfNumber_toNat] at hmin
  omega

/-- **Numeric names.** A string of digits is mapped to its own id, or to the error value if there is
none, exactly if it is below `2 ^ 32`, saturates, or has the error value in its lower 32 bits. -/
theorem numeric_name_kept_iff (users : List Passwd) (groups : List Group) {s : List UInt8}
    (hdigits : s.all isDigit = true) (hne : s ≠ []) :
    (NumeralKept (groupIdFromName groups) s ↔ Narrows (value 10 s)) ∧
      (NumeralKept (userIdFromName users) s ↔ Narrows (value 10 s)) :=
  ⟨numeralKept_iff hdigits hne, numeralKept_iff hdigits hne⟩

theorem thousand_kept :
    NumeralKept (groupIdFromName []) (str "1000") ∧
      NumeralKept (userIdFromName []) (str "1000") := by
  obtain ⟨hgroup, huser⟩ := numeric_name_kept_iff [] [] (s := str "1000") (by decide) (by decide)
  have hvalue : Narrows (value 10 (str "1000")) := Or.inl (by decide)
  exact ⟨hgroup.mpr hvalue, huser.mpr hvalue⟩

/-- The numeral of `2 ^ 32` is mapped to the id of root. -/
theorem numeral_becomes_root :
    (¬ ∀ groups s, s.all isDigit = true → s ≠ [] → NumeralKept (groupIdFromName groups) s) ∧
      ¬ ∀ users s, s.all isDigit = true → s ≠ [] → NumeralKept (userIdFromName users) s := by
  refine ⟨fun h => ?_, fun h => ?_⟩
  · have hroot := (h [] (str "4294967296") (by decide) (by decide)).2 (by decide)
    revert hroot
    decide
  · have hroot := (h [] (str "4294967296") (by decide) (by decide)).2 (by decide)
    revert hroot
    decide

/-! ## The round trip -/

/-- A database whose lookups are unambiguous. -/
structure Database {ε : Type} (K : Kind ε) where
  entries : List ε
  ids : (entries.map K.id).Nodup
  names : (entries.map K.name).Nodup
  nonempty : ∀ e ∈ entries, K.name e ≠ []

/-- `strtol` consumes the name, and makes another id of it. -/
def Misread (K : Kind ε) (e : ε) : Prop :=
  (strtol (K.name e)).2 = [] ∧ BitVec.ofInt 32 (strtol (K.name e)).1 ≠ K.id e

variable (db : Database K) {e : ε}

/-- In a list without repetitions under `f`, a search for the image of an element finds it. -/
theorem find?_of_nodup {ι : Type} [DecidableEq ι] {f : ε → ι} {l : List ε} (h : (l.map f).Nodup)
    (he : e ∈ l) : (l.find? fun x => decide (f x = f e)) = some e := by
  induction l with
  | nil => cases he
  | cons a l ih =>
      obtain ⟨hnot, hnodup⟩ := List.nodup_cons.mp h
      rcases List.mem_cons.mp he with rfl | he
      · simp
      · have hne : f a ≠ f e := fun heq => hnot (heq ▸ List.mem_map_of_mem he)
        simp [hne, ih hnodup he]

theorem nameFromId_of_mem (he : e ∈ db.entries) :
    nameFromId K db.entries (K.id e) = some (K.name e) := by
  rw [nameFromId, getById, find?_of_nodup db.ids he]
  rfl

/-- The name of an entry that `strtol` does not consume is looked up. -/
theorem idFromName_of_mem (he : e ∈ db.entries) (h : (strtol (K.name e)).2 ≠ []) :
    idFromName K db.entries (some (K.name e)) = K.id e := by
  have hfound : getByName K db.entries (K.name e) = some e := find?_of_nodup db.names he
  obtain ⟨c, cs, hname⟩ := List.exists_cons_of_ne_nil (db.nonempty e he)
  rw [hname] at h hfound ⊢
  simp only [idFromName, if_neg h, hfound]

theorem roundTrip_iff (he : e ∈ db.entries) :
    idFromName K db.entries (nameFromId K db.entries (K.id e)) = K.id e ↔ ¬ Misread K e := by
  rw [nameFromId_of_mem db he]
  by_cases h : (strtol (K.name e)).2 = []
  · rw [idFromName_consumed (db.nonempty e he) h]
    simp [Misread, h]
  · simp [idFromName_of_mem db he h, Misread, h]

/-- **The round trip from an id to a name and back.** It returns every id of a database exactly if
each name that `strtol` consumes completely denotes, narrowed to 32 bits, the id of its own
entry. -/
theorem id_name_round_trip_iff (groups : Database group) (users : Database passwd) :
    ((∀ g ∈ groups.entries.map Group.gr_gid,
        groupIdFromName groups.entries (groupNameFromId groups.entries g) = g) ↔
      ∀ e ∈ groups.entries, (strtol e.gr_name).2 = [] →
        BitVec.ofInt 32 (strtol e.gr_name).1 = e.gr_gid) ∧
    ((∀ u ∈ users.entries.map Passwd.pw_uid,
        userIdFromName users.entries (userNameFromId users.entries u) = u) ↔
      ∀ e ∈ users.entries, (strtol e.pw_name).2 = [] →
        BitVec.ofInt 32 (strtol e.pw_name).1 = e.pw_uid) := by
  constructor
  · rw [List.forall_mem_map]
    refine forall₂_congr fun e he => (roundTrip_iff groups he).trans ?_
    simp [Misread, group]
  · rw [List.forall_mem_map]
    refine forall₂_congr fun e he => (roundTrip_iff users he).trans ?_
    simp [Misread, passwd]

/-- Groups named "adm" with the gid 4 and " +7" with the gid 7. -/
def sampleGroups : Database group where
  entries := [⟨str "adm", 4⟩, ⟨str " +7", 7⟩]
  ids := by decide
  names := by decide
  nonempty := by decide

/-- Users named "root" with the uid 0 and "08" with the uid 9. -/
def sampleUsers : Database passwd where
  entries := [⟨str "root", 0⟩, ⟨str "08", 9⟩]
  ids := by decide
  names := by decide
  nonempty := by decide

/-- All groups come back; the user "08" does not, it becomes the uid 8. -/
theorem id_name_round_trip_sample :
    (∀ g ∈ sampleGroups.entries.map Group.gr_gid,
      groupIdFromName sampleGroups.entries (groupNameFromId sampleGroups.entries g) = g) ∧
    (¬ ∀ u ∈ sampleUsers.entries.map Passwd.pw_uid,
      userIdFromName sampleUsers.entries (userNameFromId sampleUsers.entries u) = u) ∧
    userIdFromName sampleUsers.entries (userNameFromId sampleUsers.entries 9) = 8 := by
  obtain ⟨hgroups, husers⟩ := id_name_round_trip_iff sampleGroups sampleUsers
  exact ⟨hgroups.mpr (by decide), fun h => absurd (husers.mp h) (by decide), by decide⟩

end Tlpi.UgidFunctions
