import Tlpi.Posix.Base
import Tlpi.Posix.Fds

set_option autoImplicit false

/-! # The Internet sockets library (sockets/inet_sockets.c)

`inetConnect` and `inetPassiveSocket` (behind `inetListen` and `inetBind`) walk through the
addresses that `getaddrinfo` returns and stop at the first one for which every system call
succeeds. `getaddrinfo` is a parameter, an arbitrary function of its arguments; which of the later
calls succeed is given by `Outcomes`.

The two loops are one definition, `walk`, applied to their bodies. `walk_cases` says once how a walk
can end, for every body that keeps the descriptor or closes it (`BodySpec`).
-/

namespace Tlpi.InetSockets

def AF_UNSPEC : BitVec 32 := 0

def AI_PASSIVE : BitVec 32 := 1

def SOCK_STREAM : BitVec 32 := 1

/-- `struct addrinfo` as an argument of `getaddrinfo`; pointers are machine words, 0 is `NULL`. -/
structure Hints where
  flags : BitVec 32
  family : BitVec 32
  socktype : BitVec 32
  protocol : BitVec 32
  addrlen : BitVec 32
  addr : BitVec 64
  canonname : BitVec 64
  next : BitVec 64
deriving DecidableEq, Repr

/-- `struct addrinfo` as an entry of the list `getaddrinfo` returns; `addr` is the address that
`ai_addr` points to. -/
structure AddrInfo where
  family : BitVec 32
  socktype : BitVec 32
  protocol : BitVec 32
  addrlen : BitVec 32
  addr : List UInt8
deriving DecidableEq, Repr

/-- `getaddrinfo(node, service, &hints, &result)`; `none` stands for a `NULL` string. -/
abbrev Getaddrinfo :=
  Option (List UInt8) → Option (List UInt8) → Hints → Except ℤ (List AddrInfo)

/-- Which calls succeed, for the entry at each position of the list. -/
structure Outcomes where
  socket : ℕ → AddrInfo → Bool
  connect : ℕ → AddrInfo → Bool
  setsockopt : ℕ → AddrInfo → Bool
  bind : ℕ → AddrInfo → Bool
  listen : Bool

/-- The calls a function makes. -/
inductive Call where
  | socket (i : ℕ) (fd : Option ℕ)
  | connect (fd : ℕ) (addr : List UInt8) (addrlen : BitVec 32) (ok : Bool)
  | setsockopt (fd : ℕ) (ok : Bool)
  | bind (fd : ℕ) (addr : List UInt8) (addrlen : BitVec 32) (ok : Bool)
  | listen (fd : ℕ) (backlog : BitVec 32) (ok : Bool)
  | close (fd : ℕ)
  | freeaddrinfo
deriving DecidableEq, Repr

/-- The process: its open descriptors, `errno` if the function has set it, the caller's variable
`*addrlen` (`none` if the pointer is `NULL`) and the calls made so far. -/
structure Machine where
  fds : Finset ℕ
  errno : Option Errno
  addrlen : Option (BitVec 32)
  calls : List Call
deriving DecidableEq

namespace Machine

def call (m : Machine) (c : Call) : Machine := { m with calls := m.calls ++ [c] }

/-- A successful `socket`. -/
def openSocket (m : Machine) (i : ℕ) : Machine :=
  { m with fds := insert (lowestFd m.fds) m.fds }.call (.socket i (some (lowestFd m.fds)))

/-- `close(fd)`. The descriptor is released whatever `close` returns. -/
def close (m : Machine) (fd : ℕ) : Machine := { m with fds := m.fds.erase fd }.call (.close fd)

end Machine

/-! ## The walk through the addresses -/

/-- How the body of the loop ends: `break`, the next entry, or a `return -1`. -/
inductive Verdict where
  | leave
  | next
  | fail
deriving DecidableEq, Repr

/-- The loop after its end: whether it returned, and the variables `rp` (the rest of the list from
the current entry on) and `sfd` (`none` for `-1`, or no value yet). -/
structure WalkExit where
  returned : Bool
  rp : List AddrInfo
  sfd : Option ℕ
  machine : Machine

/-- `for (rp = result; rp != NULL; rp = rp->ai_next)`, with the `socket` call that both loops start
with; `body` is what follows it. -/
def walk (o : Outcomes) (body : ℕ → AddrInfo → ℕ → Machine → Verdict × Machine) :
    ℕ → List AddrInfo → Option ℕ → Machine → WalkExit
  | _, [], sfd, m => ⟨false, [], sfd, m⟩
  | i, rp :: rest, _, m =>
      if o.socket i rp then
        let sfd := lowestFd m.fds
        match body i rp sfd (m.openSocket i) with
        | (.leave, m) => ⟨false, rp :: rest, some sfd, m⟩
        | (.next, m) => walk o body (i + 1) rest (some sfd) m
        | (.fail, m) => ⟨true, rp :: rest, some sfd, m⟩
      else walk o body (i + 1) rest none (m.call (.socket i none))

/-- The body of the loop in `inetConnect`. -/
def connectBody (o : Outcomes) (i : ℕ) (rp : AddrInfo) (sfd : ℕ) (m : Machine) :
    Verdict × Machine :=
  let m := m.call (.connect sfd rp.addr rp.addrlen (o.connect i rp))
  if o.connect i rp then (.leave, m) else (.next, m.close sfd)

/-- The end of the body of the loop in `inetPassiveSocket`. -/
def bindBody (o : Outcomes) (i : ℕ) (rp : AddrInfo) (sfd : ℕ) (m : Machine) : Verdict × Machine :=
  let m := m.call (.bind sfd rp.addr rp.addrlen (o.bind i rp))
  if o.bind i rp then (.leave, m) else (.next, m.close sfd)

/-- The body of the loop in `inetPassiveSocket`. -/
def passiveBody (o : Outcomes) (doListen : Bool) (i : ℕ) (rp : AddrInfo) (sfd : ℕ) (m : Machine) :
    Verdict × Machine :=
  if doListen then
    let m := m.call (.setsockopt sfd (o.setsockopt i rp))
    if o.setsockopt i rp then bindBody o i rp sfd m
    else (.fail, (m.close sfd).call .freeaddrinfo)
  else bindBody o i rp sfd m

/-! ## The functions -/

/-- What a function returns (`none` for `-1`), and the process then. -/
structure Result where
  ret : Option ℕ
  machine : Machine

/-- `(rp == NULL) ? -1 : sfd`. -/
def WalkExit.value (w : WalkExit) : Option ℕ := if w.rp = [] then none else w.sfd

def ENOSYS : ℕ := 38

/-- `hints` of `inetConnect`: all zero but for the type. -/
def connectHints (type : BitVec 32) : Hints where
  flags := 0
  family := AF_UNSPEC
  socktype := type
  protocol := 0
  addrlen := 0
  addr := 0
  canonname := 0
  next := 0

def inetConnect (getaddrinfo : Getaddrinfo) (o : Outcomes) (fds : Finset ℕ)
    (host service : Option (List UInt8)) (type : BitVec 32) : Result :=
  let m : Machine := ⟨fds, none, none, []⟩
  match getaddrinfo host service (connectHints type) with
  | .error _ => ⟨none, { m with errno := some (.other ENOSYS) }⟩
  | .ok result =>
      let w := walk o (connectBody o) 0 result none m
      ⟨w.value, w.machine.call .freeaddrinfo⟩

/-- `hints` of `inetPassiveSocket`: there is no `memset`, so two fields keep what was on the
stack. -/
def passiveHints (stack : Hints) (type : BitVec 32) : Hints :=
  { stack with
    canonname := 0
    addr := 0
    next := 0
    socktype := type
    family := AF_UNSPEC
    flags := AI_PASSIVE }

/-- `if (rp != NULL && addrlen != NULL) *addrlen = rp->ai_addrlen`. -/
def storeAddrlen (m : Machine) : List AddrInfo → Machine
  | [] => m
  | rp :: _ => { m with addrlen := m.addrlen.map fun _ => rp.addrlen }

/-- `inetPassiveSocket` after its loop. -/
def passiveEnd (o : Outcomes) (doListen : Bool) (backlog : BitVec 32) (w : WalkExit) : Result :=
  match w.rp, w.sfd, doListen with
  | _ :: _, some sfd, true =>
      let m := w.machine.call (.listen sfd backlog o.listen)
      if o.listen then ⟨w.value, (storeAddrlen m w.rp).call .freeaddrinfo⟩
      -- `sfd` stays open here
      else ⟨none, m.call .freeaddrinfo⟩
  | _, _, _ => ⟨w.value, (storeAddrlen w.machine w.rp).call .freeaddrinfo⟩

/-- `stack` is what was in the memory of `hints` before. -/
def inetPassiveSocket (getaddrinfo : Getaddrinfo) (o : Outcomes) (stack : Hints) (fds : Finset ℕ)
    (service : Option (List UInt8)) (type : BitVec 32) (addrlen : Option (BitVec 32))
    (doListen : Bool) (backlog : BitVec 32) : Result :=
  let m : Machine := ⟨fds, none, addrlen, []⟩
  match getaddrinfo none service (passiveHints stack type) with
  | .error _ => ⟨none, m⟩
  | .ok result =>
      let w := walk o (passiveBody o doListen) 0 result none m
      if w.returned then ⟨none, w.machine⟩ else passiveEnd o doListen backlog w

def inetListen (getaddrinfo : Getaddrinfo) (o : Outcomes) (stack : Hints) (fds : Finset ℕ)
    (service : Option (List UInt8)) (backlog : BitVec 32) (addrlen : Option (BitVec 32)) : Result :=
  inetPassiveSocket getaddrinfo o stack fds service SOCK_STREAM addrlen true backlog

def inetBind (getaddrinfo : Getaddrinfo) (o : Outcomes) (stack : Hints) (fds : Finset ℕ)
    (service : Option (List UInt8)) (type : BitVec 32) (addrlen : Option (BitVec 32)) : Result :=
  inetPassiveSocket getaddrinfo o stack fds service type addrlen false 0

/-! ## How a walk can end -/

/-- How often the address list has been freed. -/
def Machine.freed (m : Machine) : ℕ := m.calls.count .freeaddrinfo

@[simp] theorem Machine.call_fds (m : Machine) (c : Call) : (m.call c).fds = m.fds := rfl

@[simp] theorem Machine.call_addrlen (m : Machine) (c : Call) :
    (m.call c).addrlen = m.addrlen := rfl

@[simp] theorem Machine.call_calls (m : Machine) (c : Call) :
    (m.call c).calls = m.calls ++ [c] := rfl

@[simp] theorem Machine.close_fds (m : Machine) (fd : ℕ) : (m.close fd).fds = m.fds.erase fd := rfl

@[simp] theorem Machine.close_addrlen (m : Machine) (fd : ℕ) :
    (m.close fd).addrlen = m.addrlen := rfl

@[simp] theorem Machine.close_calls (m : Machine) (fd : ℕ) :
    (m.close fd).calls = m.calls ++ [.close fd] := rfl

/-- What the walk needs to know of the body: its verdict depends on the outcomes only, it keeps the
descriptor if it leaves the loop and closes it if not, and it frees the list only if it returns. -/
structure BodySpec (body : ℕ → AddrInfo → ℕ → Machine → Verdict × Machine)
    (verdict : ℕ → AddrInfo → Verdict) : Prop where
  decides : ∀ i e fd m, (body i e fd m).1 = verdict i e
  fds : ∀ i e fd m, (body i e fd m).2.fds
    = if verdict i e = .leave then m.fds else m.fds.erase fd
  addrlen : ∀ i e fd m, (body i e fd m).2.addrlen = m.addrlen
  freed : ∀ i e fd m, (body i e fd m).2.freed
    = if verdict i e = .fail then m.freed + 1 else m.freed
  socket : ∀ i e fd m j fd', .socket j fd' ∈ (body i e fd m).2.calls ↔ .socket j fd' ∈ m.calls

/-- What becomes of an entry: without a socket the walk goes on to the next one. -/
def entryVerdict (o : Outcomes) (verdict : ℕ → AddrInfo → Verdict) (i : ℕ) (e : AddrInfo) :
    Verdict := if o.socket i e then verdict i e else .next

/-- The entries before the `k`-th were all given up. -/
def GivenUp (o : Outcomes) (verdict : ℕ → AddrInfo → Verdict) (i : ℕ) (es : List AddrInfo)
    (k : ℕ) : Prop := ∀ j < k, ∀ e, es[j]? = some e → entryVerdict o verdict (i + j) e = .next

/-- How a walk from the entries `es`, the first one at position `i`, can end. -/
inductive Walked (o : Outcomes) (verdict : ℕ → AddrInfo → Verdict) (i : ℕ) (es : List AddrInfo)
    (m : Machine) (w : WalkExit) : Prop where
  | exhausted (hgiven : GivenUp o verdict i es es.length) (hret : w.returned = false)
      (hrp : w.rp = []) (hfds : w.machine.fds = m.fds) (hlen : w.machine.addrlen = m.addrlen)
      (hfreed : w.machine.freed = m.freed)
  | left (k : ℕ) (e : AddrInfo) (hk : es[k]? = some e) (hgiven : GivenUp o verdict i es k)
      (hv : entryVerdict o verdict (i + k) e = .leave) (hret : w.returned = false)
      (hrp : w.rp = es.drop k) (hsfd : w.sfd = some (lowestFd m.fds))
      (hfds : w.machine.fds = insert (lowestFd m.fds) m.fds)
      (hlen : w.machine.addrlen = m.addrlen) (hfreed : w.machine.freed = m.freed)
      (hsock : .socket (i + k) (some (lowestFd m.fds)) ∈ w.machine.calls)
      (htried : ∀ j fd, .socket j fd ∈ w.machine.calls →
        .socket j fd ∈ m.calls ∨ j < i + k ∨ j = i + k ∧ fd = some (lowestFd m.fds))
  | failed (k : ℕ) (e : AddrInfo) (hk : es[k]? = some e) (hgiven : GivenUp o verdict i es k)
      (hv : entryVerdict o verdict (i + k) e = .fail) (hret : w.returned = true)
      (hfds : w.machine.fds = m.fds) (hlen : w.machine.addrlen = m.addrlen)
      (hfreed : w.machine.freed = m.freed + 1)

/-- The machine after an entry that was given up. -/
structure Passed (i : ℕ) (m n : Machine) : Prop where
  fds : n.fds = m.fds
  addrlen : n.addrlen = m.addrlen
  freed : n.freed = m.freed
  tried : ∀ j fd, .socket j fd ∈ n.calls → .socket j fd ∈ m.calls ∨ j = i

variable {o : Outcomes} {body : ℕ → AddrInfo → ℕ → Machine → Verdict × Machine}
  {verdict : ℕ → AddrInfo → Verdict}

theorem GivenUp.cons {i k : ℕ} {e : AddrInfo} {es : List AddrInfo}
    (he : entryVerdict o verdict i e = .next) (h : GivenUp o verdict (i + 1) es k) :
    GivenUp o verdict i (e :: es) (k + 1) := by
  intro j hj e' he'
  cases j with
  | zero =>
      obtain rfl : e = e' := by simpa using he'
      exact he
  | succ j =>
      have hnext := h j (by omega) e' (by simpa using he')
      rwa [show i + 1 + j = i + (j + 1) by omega] at hnext

/-- In a walk from the start of the list. -/
theorem GivenUp.next {es : List AddrInfo} {j k : ℕ} {e : AddrInfo} (h : GivenUp o verdict 0 es k)
    (hj : j < k) (he : es[j]? = some e) : entryVerdict o verdict j e = .next := by
  simpa using h j hj e he

/-- An entry given up in front of a walk. -/
theorem Walked.cons {i : ℕ} {e : AddrInfo} {es : List AddrInfo} {m n : Machine} {w : WalkExit}
    (he : entryVerdict o verdict i e = .next) (hmn : Passed i m n)
    (h : Walked o verdict (i + 1) es n w) : Walked o verdict i (e :: es) m w := by
  cases h with
  | exhausted hgiven hret hrp hfds hlen hfreed =>
      exact .exhausted (hgiven.cons he) hret hrp (hfds.trans hmn.fds) (hlen.trans hmn.addrlen)
        (hfreed.trans hmn.freed)
  | left k e' hk hgiven hv hret hrp hsfd hfds hlen hfreed hsock htried =>
      have hpos : i + 1 + k = i + (k + 1) := by omega
      rw [hmn.fds] at hsfd hfds hsock htried
      rw [hpos] at hv hsock htried
      refine .left (k + 1) e' (by simpa using hk) (hgiven.cons he) hv hret (by simpa using hrp) hsfd
        hfds (hlen.trans hmn.addrlen) (hfreed.trans hmn.freed) hsock ?_
      intro j fd hj
      rcases htried j fd hj with hold | hle
      · rcases hmn.tried j fd hold with hold | rfl
        · exact Or.inl hold
        · exact Or.inr (Or.inl (by omega))
      · exact Or.inr hle
  | failed k e' hk hgiven hv hret hfds hlen hfreed =>
      have hpos : i + 1 + k = i + (k + 1) := by omega
      rw [hpos] at hv
      exact .failed (k + 1) e' (by simpa using hk) (hgiven.cons he) hv hret (hfds.trans hmn.fds)
        (hlen.trans hmn.addrlen) (by rw [hfreed, hmn.freed])

/-- The first entry that is not given up ends the walk. -/
theorem walk_cases (hbody : BodySpec body verdict) (es : List AddrInfo) :
    ∀ (i : ℕ) (sfd : Option ℕ) (m : Machine),
      Walked o verdict i es m (walk o body i es sfd m) := by
  induction es with
  | nil =>
      intro i sfd m
      exact .exhausted (fun j hj => absurd hj (Nat.not_lt_zero j)) rfl rfl rfl rfl rfl
  | cons e es ih =>
      intro i sfd m
      unfold walk
      by_cases hsocket : o.socket i e = true
      · have hfresh := lowestFd_notMem m.fds
        have hopen : (m.openSocket i).fds = insert (lowestFd m.fds) m.fds := rfl
        have hdecides := hbody.decides i e (lowestFd m.fds) (m.openSocket i)
        have hfds := hbody.fds i e (lowestFd m.fds) (m.openSocket i)
        have hlen := hbody.addrlen i e (lowestFd m.fds) (m.openSocket i)
        have hfreed := hbody.freed i e (lowestFd m.fds) (m.openSocket i)
        have hsock := hbody.socket i e (lowestFd m.fds) (m.openSocket i)
        have hopened : (m.openSocket i).freed = m.freed := by
          simp [Machine.freed, Machine.openSocket]
        have hentry : entryVerdict o verdict i e = verdict i e := if_pos hsocket
        rw [if_pos hsocket]
        dsimp only
        generalize body i e (lowestFd m.fds) (m.openSocket i) = r at *
        obtain ⟨v, n⟩ := r
        dsimp only at hdecides hfds hlen hfreed hsock
        subst hdecides
        cases hv : verdict i e with
        | leave =>
            rw [hv] at hentry hfds hfreed
            refine .left 0 e rfl (fun j hj => absurd hj (Nat.not_lt_zero j)) hentry rfl rfl rfl
              (hfds.trans hopen) hlen (hfreed.trans hopened) ?_ ?_
            · exact (hsock i _).mpr (List.mem_append_right _ (List.mem_singleton_self _))
            · intro j fd hj
              rcases List.mem_append.mp ((hsock j fd).mp hj) with hold | hnew
              · exact Or.inl hold
              · exact Or.inr (Or.inr (Call.socket.inj (List.mem_singleton.mp hnew)))
        | next =>
            rw [hv] at hentry hfds hfreed
            refine (ih (i + 1) _ n).cons hentry ⟨?_, hlen, hfreed.trans hopened, ?_⟩
            · calc n.fds = (insert (lowestFd m.fds) m.fds).erase (lowestFd m.fds) := hfds
                _ = m.fds := Finset.erase_insert hfresh
            · intro j fd hj
              rcases List.mem_append.mp ((hsock j fd).mp hj) with hold | hnew
              · exact Or.inl hold
              · exact Or.inr (Call.socket.inj (List.mem_singleton.mp hnew)).1
        | fail =>
            rw [hv] at hentry hfds hfreed
            refine .failed 0 e rfl (fun j hj => absurd hj (Nat.not_lt_zero j)) hentry rfl ?_ hlen ?_
            · calc n.fds = (insert (lowestFd m.fds) m.fds).erase (lowestFd m.fds) := hfds
                _ = m.fds := Finset.erase_insert hfresh
            · calc n.freed = (m.openSocket i).freed + 1 := hfreed
                _ = m.freed + 1 := by rw [hopened]
      · rw [if_neg hsocket]
        have hpassed : Passed i m (m.call (.socket i none)) := by
          refine ⟨rfl, rfl, by simp [Machine.freed], ?_⟩
          intro j fd hj
          rcases List.mem_append.mp hj with hold | hnew
          · exact Or.inl hold
          · exact Or.inr (Call.socket.inj (List.mem_singleton.mp hnew)).1
        exact (ih (i + 1) none _).cons (if_neg hsocket) hpassed

/-- `connect` decides. -/
def connectVerdict (o : Outcomes) (i : ℕ) (e : AddrInfo) : Verdict :=
  if o.connect i e then .leave else .next

/-- `setsockopt`, if it is called, may end the function; then `bind` decides. -/
def passiveVerdict (o : Outcomes) (doListen : Bool) (i : ℕ) (e : AddrInfo) : Verdict :=
  if doListen = true ∧ o.setsockopt i e = false then .fail
  else if o.bind i e then .leave else .next

theorem connectBody_spec (o : Outcomes) : BodySpec (connectBody o) (connectVerdict o) := by
  constructor
  all_goals
    intro i e fd m
    unfold connectBody
    cases hc : o.connect i e <;> simp [Machine.freed, connectVerdict, hc]

theorem passiveBody_spec (o : Outcomes) (doListen : Bool) :
    BodySpec (passiveBody o doListen) (passiveVerdict o doListen) := by
  constructor
  all_goals
    intro i e fd m
    unfold passiveBody bindBody
    cases doListen <;> cases hs : o.setsockopt i e <;> cases hb : o.bind i e <;>
      simp [Machine.freed, passiveVerdict, hs, hb]

/-! ## inetConnect and inetBind -/

@[simp] theorem storeAddrlen_fds (m : Machine) (rp : List AddrInfo) :
    (storeAddrlen m rp).fds = m.fds := by
  cases rp <;> rfl

@[simp] theorem storeAddrlen_calls (m : Machine) (rp : List AddrInfo) :
    (storeAddrlen m rp).calls = m.calls := by
  cases rp <;> rfl

/-- The list, if there is one, is freed at the end. -/
theorem freed_once {m : Machine} (h : m.freed = 0) (es : List AddrInfo) :
    (m.call .freeaddrinfo).freed
      = if (Except.ok es : Except ℤ (List AddrInfo)).isOk then 1 else 0 := by
  have hcount : m.calls.count .freeaddrinfo = 0 := h
  simp [Machine.freed, hcount, Except.isOk, Except.toBool]

theorem storeAddrlen_freed (m : Machine) (rp : List AddrInfo) :
    (storeAddrlen m rp).freed = m.freed := by
  rw [Machine.freed, storeAddrlen_calls, Machine.freed]

/-- The walk stopped at this entry, so `rp` points to it. -/
theorem drop_eq_cons {es : List AddrInfo} {k : ℕ} {e : AddrInfo} (h : es[k]? = some e) :
    es.drop k = e :: es.drop (k + 1) := by
  obtain ⟨hlt, rfl⟩ := List.getElem?_eq_some_iff.mp h
  exact List.drop_eq_getElem_cons hlt

/-- What a function that looks for the first working address promises, when `getaddrinfo` returned
`list` and `fds` and `addrlen` are as they were before the call. -/
structure AddressWalk (works : ℕ → AddrInfo → Prop) (list : Except ℤ (List AddrInfo))
    (fds : Finset ℕ) (addrlen : Option (BitVec 32)) (r : Result) : Prop where
  fails_iff : r.ret = none ↔ ∀ es, list = .ok es → ∀ k e, es[k]? = some e → ¬ works k e
  failure : r.ret = none → r.machine.fds = fds ∧ r.machine.addrlen = addrlen
  success : ∀ fd, r.ret = some fd → ∃ es k e, list = .ok es ∧ es[k]? = some e ∧ works k e ∧
    (∀ j < k, ∀ e', es[j]? = some e' → ¬ works j e') ∧
    fd ∉ fds ∧ r.machine.fds = insert fd fds ∧
    .socket k (some fd) ∈ r.machine.calls ∧
    (∀ j fd', .socket j fd' ∈ r.machine.calls → j < k ∨ j = k ∧ fd' = some fd) ∧
    r.machine.addrlen = addrlen.map fun _ => e.addrlen
  freed : r.machine.freed = if list.isOk then 1 else 0

/-- `getaddrinfo` failed: nothing has happened. -/
theorem AddressWalk.of_error {works : ℕ → AddrInfo → Prop} {err : ℤ} {fds : Finset ℕ}
    {addrlen : Option (BitVec 32)} {r : Result} (hret : r.ret = none) (hfds : r.machine.fds = fds)
    (hlen : r.machine.addrlen = addrlen) (hcalls : r.machine.calls = []) :
    AddressWalk works (.error err) fds addrlen r where
  fails_iff := ⟨fun _ es hes => (by cases hes), fun _ => hret⟩
  failure _ := ⟨hfds, hlen⟩
  success fd hfd := by cases hret.symm.trans hfd
  freed := by rw [Machine.freed, hcalls]; rfl

/-- The walk from a fresh machine, then `storeAddrlen` and `freeaddrinfo`, where a body either
leaves the loop or goes on to the next entry. -/
theorem AddressWalk.of_walked {works : ℕ → AddrInfo → Prop} {es : List AddrInfo} {fds : Finset ℕ}
    {addrlen : Option (BitVec 32)} {w : WalkExit}
    (hleave : ∀ i e, entryVerdict o verdict i e = .leave → works i e)
    (hnext : ∀ i e, entryVerdict o verdict i e = .next → ¬ works i e)
    (hfail : ∀ i e, entryVerdict o verdict i e ≠ .fail)
    (h : Walked o verdict 0 es ⟨fds, none, addrlen, []⟩ w) :
    AddressWalk works (.ok es) fds addrlen
      ⟨w.value, (storeAddrlen w.machine w.rp).call .freeaddrinfo⟩ := by
  cases h with
  | exhausted hgiven hret hrp hfds hlen hfreed =>
      have hvalue : w.value = none := if_pos hrp
      have hnone : ∀ k e, es[k]? = some e → ¬ works k e := by
        intro k e hk
        obtain ⟨hlt, -⟩ := List.getElem?_eq_some_iff.mp hk
        exact hnext k e (hgiven.next hlt hk)
      refine ⟨⟨?_, fun _ => hvalue⟩, fun _ => ⟨?_, ?_⟩, fun fd hfd => ?_, ?_⟩
      · rintro - es' hes
        obtain rfl : es = es' := Except.ok.inj hes
        exact hnone
      · simpa using hfds
      · rw [hrp]
        exact hlen
      · cases hvalue.symm.trans hfd
      · exact freed_once ((storeAddrlen_freed _ _).trans hfreed) es
  | left k e hk hgiven hv hret hrp hsfd hfds hlen hfreed hsock htried =>
      rw [Nat.zero_add] at hv hsock htried
      have hdrop : w.rp = e :: es.drop (k + 1) := hrp.trans (drop_eq_cons hk)
      have hvalue : w.value = some (lowestFd fds) := by
        rw [WalkExit.value, if_neg (by simp [hdrop]), hsfd]
      refine ⟨⟨fun hnone => ?_, fun hnone => ?_⟩, fun hnone => ?_, fun fd hfd => ?_, ?_⟩
      · cases hvalue.symm.trans hnone
      · exact absurd (hleave k e hv) (hnone es rfl k e hk)
      · cases hvalue.symm.trans hnone
      · obtain rfl : lowestFd fds = fd := Option.some.inj (hvalue.symm.trans hfd)
        refine ⟨es, k, e, rfl, hk, hleave k e hv, ?_, lowestFd_notMem fds, ?_, ?_, ?_, ?_⟩
        · intro j hj e' he'
          exact hnext j e' (hgiven.next hj he')
        · simpa using hfds
        · simpa using hsock
        · intro j fd' hj
          have hj : .socket j fd' ∈ w.machine.calls := by simpa using hj
          rcases htried j fd' hj with hold | hnew
          · cases hold
          · exact hnew
        · rw [hdrop]
          show w.machine.addrlen.map _ = _
          rw [hlen]
      · exact freed_once ((storeAddrlen_freed _ _).trans hfreed) es
  | failed k e hk hgiven hv => exact absurd hv (hfail _ e)

theorem connect_leave (o : Outcomes) (i : ℕ) (e : AddrInfo) :
    entryVerdict o (connectVerdict o) i e = .leave ↔
      o.socket i e = true ∧ o.connect i e = true := by
  unfold entryVerdict connectVerdict
  cases o.socket i e <;> cases o.connect i e <;> simp

theorem connect_no_fail (o : Outcomes) (i : ℕ) (e : AddrInfo) :
    entryVerdict o (connectVerdict o) i e ≠ .fail := by
  unfold entryVerdict connectVerdict
  cases o.socket i e <;> cases o.connect i e <;> simp

theorem bind_leave (o : Outcomes) (i : ℕ) (e : AddrInfo) :
    entryVerdict o (passiveVerdict o false) i e = .leave ↔
      o.socket i e = true ∧ o.bind i e = true := by
  unfold entryVerdict passiveVerdict
  cases o.socket i e <;> cases o.bind i e <;> simp

theorem bind_no_fail (o : Outcomes) (i : ℕ) (e : AddrInfo) :
    entryVerdict o (passiveVerdict o false) i e ≠ .fail := by
  unfold entryVerdict passiveVerdict
  cases o.socket i e <;> cases o.bind i e <;> simp

/-- `*addrlen` is not touched if there is none. -/
theorem storeAddrlen_of_none {m : Machine} (h : m.addrlen = none) (rp : List AddrInfo) :
    storeAddrlen m rp = m := by
  cases rp with
  | nil => rfl
  | cons e rest =>
      obtain ⟨fds, errno, addrlen, calls⟩ := m
      obtain rfl : addrlen = none := h
      rfl

theorem passiveEnd_bind (o : Outcomes) (backlog : BitVec 32) (w : WalkExit) :
    passiveEnd o false backlog w
      = ⟨w.value, (storeAddrlen w.machine w.rp).call .freeaddrinfo⟩ := by
  obtain ⟨returned, rp, sfd, m⟩ := w
  cases rp <;> cases sfd <;> rfl

/-- A walk does not change `*addrlen`. -/
theorem Walked.addrlen {i : ℕ} {es : List AddrInfo} {m : Machine} {w : WalkExit}
    (h : Walked o verdict i es m w) : w.machine.addrlen = m.addrlen := by
  cases h <;> assumption

/-- **The address walk.** For every list of addresses and every outcome of the calls, `inetConnect`
and `inetBind` return the descriptor of the first entry for which both calls succeed and leave only
it open, or they return -1 and leave none; the list is freed once. -/
theorem address_walk (getaddrinfo : Getaddrinfo) (o : Outcomes) (stack : Hints) (fds : Finset ℕ)
    (host service : Option (List UInt8)) (type : BitVec 32) (addrlen : Option (BitVec 32)) :
    AddressWalk (fun k e => o.socket k e = true ∧ o.connect k e = true)
        (getaddrinfo host service (connectHints type)) fds none
        (inetConnect getaddrinfo o fds host service type) ∧
      AddressWalk (fun k e => o.socket k e = true ∧ o.bind k e = true)
        (getaddrinfo none service (passiveHints stack type)) fds addrlen
        (inetBind getaddrinfo o stack fds service type addrlen) := by
  constructor
  · unfold inetConnect
    cases getaddrinfo host service (connectHints type) with
    | error err => exact .of_error rfl rfl rfl rfl
    | ok es =>
        have hwalk := walk_cases (o := o) (connectBody_spec o) es 0 none ⟨fds, none, none, []⟩
        have hresult := AddressWalk.of_walked (fun i e => (connect_leave o i e).mp)
          (fun i e hnext hworks => by
            rw [(connect_leave o i e).mpr hworks] at hnext
            exact nomatch hnext)
          (connect_no_fail o) hwalk
        rwa [storeAddrlen_of_none hwalk.addrlen] at hresult
  · unfold inetBind inetPassiveSocket
    cases getaddrinfo none service (passiveHints stack type) with
    | error err => exact .of_error rfl rfl rfl rfl
    | ok es =>
        have hwalk := walk_cases (o := o) (passiveBody_spec o false) es 0 none
          ⟨fds, none, addrlen, []⟩
        have hresult := AddressWalk.of_walked (fun i e => (bind_leave o i e).mp)
          (fun i e hnext hworks => by
            rw [(bind_leave o i e).mpr hworks] at hnext
            exact nomatch hnext)
          (bind_no_fail o) hwalk
        have hret : (walk o (passiveBody o false) 0 es none ⟨fds, none, addrlen, []⟩).returned
            = false := by
          cases hwalk with
          | exhausted hgiven hret => exact hret
          | left k e hk hgiven hv hret => exact hret
          | failed k e hk hgiven hv => exact absurd hv (bind_no_fail o _ e)
        simp only [hret, Bool.false_eq_true, if_false, passiveEnd_bind]
        exact hresult

/-! ## inetListen -/

/-- If -1 is returned, every descriptor opened during the call is closed, the list is freed once and
`*addrlen` is as before. -/
def FailsCleanly (list : Except ℤ (List AddrInfo)) (fds : Finset ℕ)
    (addrlen : Option (BitVec 32)) (r : Result) : Prop :=
  r.ret = none → r.machine.fds = fds ∧ r.machine.addrlen = addrlen ∧
    r.machine.freed = if list.isOk then 1 else 0

/-- `listen` is reached and fails: some entry has its `socket`, `setsockopt` and `bind` succeed, and
each entry before it was given up, without a socket or at its `bind`. -/
def ListenFails (o : Outcomes) (list : Except ℤ (List AddrInfo)) : Prop :=
  o.listen = false ∧ ∃ es k e, list = .ok es ∧ es[k]? = some e ∧
    o.socket k e = true ∧ o.setsockopt k e = true ∧ o.bind k e = true ∧
    ∀ j < k, ∀ e', es[j]? = some e' →
      o.socket j e' = false ∨ o.setsockopt j e' = true ∧ o.bind j e' = false

theorem listen_leave (o : Outcomes) (i : ℕ) (e : AddrInfo) :
    entryVerdict o (passiveVerdict o true) i e = .leave ↔
      o.socket i e = true ∧ o.setsockopt i e = true ∧ o.bind i e = true := by
  unfold entryVerdict passiveVerdict
  cases o.socket i e <;> cases o.setsockopt i e <;> cases o.bind i e <;> simp

theorem listen_next (o : Outcomes) (i : ℕ) (e : AddrInfo) :
    entryVerdict o (passiveVerdict o true) i e = .next ↔
      o.socket i e = false ∨ o.setsockopt i e = true ∧ o.bind i e = false := by
  unfold entryVerdict passiveVerdict
  cases o.socket i e <;> cases o.setsockopt i e <;> cases o.bind i e <;> simp

/-- Only one entry can end the walk. -/
theorem GivenUp.unique {es : List AddrInfo} {k l : ℕ} {e f : AddrInfo}
    (hk : es[k]? = some e) (hl : es[l]? = some f) (hek : entryVerdict o verdict k e ≠ .next)
    (hfl : entryVerdict o verdict l f ≠ .next) (hgk : GivenUp o verdict 0 es k)
    (hgl : GivenUp o verdict 0 es l) : k = l := by
  rcases Nat.lt_trichotomy k l with hlt | heq | hgt
  · exact absurd (hgl.next hlt hk) hek
  · exact heq
  · exact absurd (hgk.next hgt hl) hfl

theorem passiveEnd_exhausted {w : WalkExit} (hrp : w.rp = []) (doListen : Bool)
    (backlog : BitVec 32) :
    passiveEnd o doListen backlog w = ⟨none, w.machine.call .freeaddrinfo⟩ := by
  obtain ⟨returned, rp, sfd, m⟩ := w
  obtain rfl : rp = [] := hrp
  rfl

theorem passiveEnd_listen {w : WalkExit} {e : AddrInfo} {rest : List AddrInfo} {sfd : ℕ}
    (hrp : w.rp = e :: rest) (hsfd : w.sfd = some sfd) (backlog : BitVec 32) :
    passiveEnd o true backlog w =
      let m := w.machine.call (.listen sfd backlog o.listen)
      if o.listen then ⟨some sfd, (storeAddrlen m w.rp).call .freeaddrinfo⟩
      else ⟨none, m.call .freeaddrinfo⟩ := by
  obtain ⟨returned, rp, fd, m⟩ := w
  obtain rfl : rp = e :: rest := hrp
  obtain rfl : fd = some sfd := hsfd
  rfl

/-- The walk of `inetListen` stopped at an entry for `listen`, and it is the only one. -/
theorem ListenFails.reached {es : List AddrInfo} (h : ListenFails o (.ok es)) :
    ∃ k e, es[k]? = some e ∧ entryVerdict o (passiveVerdict o true) k e = .leave ∧
      GivenUp o (passiveVerdict o true) 0 es k := by
  obtain ⟨-, es', k, e, hes, hk, hsocket, hsetsockopt, hbind, hbefore⟩ := h
  obtain rfl : es = es' := Except.ok.inj hes
  refine ⟨k, e, hk, (listen_leave o k e).mpr ⟨hsocket, hsetsockopt, hbind⟩, ?_⟩
  intro j hj e' he'
  rw [Nat.zero_add]
  exact (listen_next o j e').mpr (hbefore j hj e' he')

/-- **When inetListen fails cleanly.** Exactly if it does not fail at `listen`: there it returns
without closing the socket. -/
theorem inetListen_fails_cleanly_iff (getaddrinfo : Getaddrinfo) (o : Outcomes) (stack : Hints)
    (fds : Finset ℕ) (service : Option (List UInt8)) (backlog : BitVec 32)
    (addrlen : Option (BitVec 32)) :
    FailsCleanly (getaddrinfo none service (passiveHints stack SOCK_STREAM)) fds addrlen
        (inetListen getaddrinfo o stack fds service backlog addrlen) ↔
      ¬ ListenFails o (getaddrinfo none service (passiveHints stack SOCK_STREAM)) := by
  unfold inetListen inetPassiveSocket
  cases getaddrinfo none service (passiveHints stack SOCK_STREAM) with
  | error err =>
      refine ⟨fun _ hlisten => ?_, fun _ _ => ⟨rfl, rfl, rfl⟩⟩
      obtain ⟨-, es, k, e, hes, -⟩ := hlisten
      exact nomatch hes
  | ok es =>
      have hwalk := walk_cases (o := o) (passiveBody_spec o true) es 0 none ⟨fds, none, addrlen, []⟩
      dsimp only
      generalize walk o (passiveBody o true) 0 es none ⟨fds, none, addrlen, []⟩ = w at hwalk ⊢
      cases hwalk with
      | exhausted hgiven hret hrp hfds hlen hfreed =>
          rw [if_neg (by simp [hret]), passiveEnd_exhausted hrp]
          refine ⟨fun _ hlisten => ?_, fun _ _ => ⟨hfds, hlen, ?_⟩⟩
          · obtain ⟨k, e, hk, hleave, -⟩ := hlisten.reached
            obtain ⟨hlt, -⟩ := List.getElem?_eq_some_iff.mp hk
            exact nomatch hleave.symm.trans (hgiven.next hlt hk)
          · exact freed_once hfreed es
      | left k e hk hgiven hv hret hrp hsfd hfds hlen hfreed hsock htried =>
          rw [Nat.zero_add] at hv
          have hdrop : w.rp = e :: es.drop (k + 1) := hrp.trans (drop_eq_cons hk)
          rw [if_neg (by simp [hret]), passiveEnd_listen hdrop hsfd]
          cases hlisten : o.listen with
          | true =>
              refine ⟨fun _ hfails => ?_, fun _ hnone => ?_⟩
              · exact nomatch hlisten.symm.trans hfails.1
              · exact nomatch hnone
          | false =>
              -- the descriptor of the entry is still there
              refine ⟨fun hclean => ?_, fun hnot => absurd ⟨hlisten, es, k, e, rfl, hk, ?_⟩ hnot⟩
              · obtain ⟨hsame, -⟩ := hclean rfl
                have hsame : insert (lowestFd fds) fds = fds := hfds.symm.trans hsame
                exact absurd (Finset.insert_eq_self.mp hsame) (lowestFd_notMem fds)
              · obtain ⟨hsocket, hsetsockopt, hbind⟩ := (listen_leave o k e).mp hv
                refine ⟨hsocket, hsetsockopt, hbind, fun j hj e' he' => ?_⟩
                exact (listen_next o j e').mp (hgiven.next hj he')
      | failed k e hk hgiven hv hret hfds hlen hfreed =>
          rw [Nat.zero_add] at hv
          rw [if_pos hret]
          refine ⟨fun _ hlisten => ?_, fun _ _ => ⟨hfds, hlen, hfreed⟩⟩
          obtain ⟨l, f, hl, hleave, hgl⟩ := hlisten.reached
          obtain rfl : k = l := GivenUp.unique hk hl (by simp [hv]) (by simp [hleave]) hgiven hgl
          obtain rfl : e = f := Option.some.inj (hk.symm.trans hl)
          exact nomatch hv.symm.trans hleave

/-- A wildcard address for TCP port 80. -/
def anyAddress : AddrInfo where
  family := 2
  socktype := SOCK_STREAM
  protocol := 6
  addrlen := 16
  addr := [2, 0, 0, 80, 0, 0, 0, 0, 0, 0, 0, 0, 0, 0, 0, 0]

/-- Another process has bound the only address too (`SO_REUSEADDR`) and starts to listen between
`bind` and `listen`, so `listen` fails. -/
theorem inetListen_leaks_socket :
    ¬ FailsCleanly (.ok [anyAddress]) {0, 1, 2} (some 0)
      (inetListen (fun _ _ _ => .ok [anyAddress])
        ⟨fun _ _ => true, fun _ _ => true, fun _ _ => true, fun _ _ => true, false⟩
        ⟨0, 0, 0, 0, 0, 0, 0, 0⟩ {0, 1, 2} (some [56, 48]) 10 (some 0)) := by
  intro hclean
  have hleaks := (hclean rfl).1
  revert hleaks
  decide

/-! ## What is left in hints -/

/-- The addresses that were bound. -/
def Machine.bound (m : Machine) : List (List UInt8 × BitVec 32) :=
  m.calls.filterMap fun
    | .bind _ addr addrlen true => some (addr, addrlen)
    | _ => none

/-- Two calls return the same and bind the same address. -/
def SameEffect (r₁ r₂ : Result) : Prop :=
  r₁.ret = r₂.ret ∧ r₁.machine.bound = r₂.machine.bound

theorem passiveHints_eq_iff (stack₁ stack₂ : Hints) (type : BitVec 32) :
    passiveHints stack₁ type = passiveHints stack₂ type ↔
      stack₁.protocol = stack₂.protocol ∧ stack₁.addrlen = stack₂.addrlen := by
  simp [passiveHints]

/-- A list of one address, and every call succeeds. -/
theorem inetPassiveSocket_success {getaddrinfo : Getaddrinfo} {stack : Hints} {type : BitVec 32}
    {service : Option (List UInt8)} {e : AddrInfo}
    (h : getaddrinfo none service (passiveHints stack type) = .ok [e]) (fds : Finset ℕ)
    (addrlen : Option (BitVec 32)) (doListen : Bool) (backlog : BitVec 32) :
    (inetPassiveSocket getaddrinfo
      ⟨fun _ _ => true, fun _ _ => true, fun _ _ => true, fun _ _ => true, true⟩ stack fds service
      type addrlen doListen backlog).ret = some (lowestFd fds) := by
  unfold inetPassiveSocket
  rw [h]
  cases doListen <;> rfl

/-- **What inetPassiveSocket depends on.** Two contents of `hints` always have the same effect only
if they agree in the two fields that are not set. -/
theorem inetPassiveSocket_same_iff (stack₁ stack₂ : Hints) (fds : Finset ℕ)
    (service : Option (List UInt8)) (type : BitVec 32) (addrlen : Option (BitVec 32))
    (doListen : Bool) (backlog : BitVec 32) :
    (∀ getaddrinfo o, SameEffect
      (inetPassiveSocket getaddrinfo o stack₁ fds service type addrlen doListen backlog)
      (inetPassiveSocket getaddrinfo o stack₂ fds service type addrlen doListen backlog)) ↔
      stack₁.protocol = stack₂.protocol ∧ stack₁.addrlen = stack₂.addrlen := by
  constructor
  · intro hsame
    by_contra hdiffer
    have hne : passiveHints stack₂ type ≠ passiveHints stack₁ type := by
      intro heq
      exact hdiffer ((passiveHints_eq_iff stack₁ stack₂ type).mp heq.symm)
    -- a resolver that knows an address for the first hints only
    let resolver : Getaddrinfo := fun _ _ hints =>
      if hints = passiveHints stack₁ type then .ok [anyAddress] else .error (-7)
    have hfirst : resolver none service (passiveHints stack₁ type) = .ok [anyAddress] := if_pos rfl
    have hsecond : resolver none service (passiveHints stack₂ type) = .error (-7) := if_neg hne
    have hret := (hsame resolver
      ⟨fun _ _ => true, fun _ _ => true, fun _ _ => true, fun _ _ => true, true⟩).1
    rw [inetPassiveSocket_success hfirst] at hret
    unfold inetPassiveSocket at hret
    rw [hsecond] at hret
    exact nomatch hret
  · intro hagree getaddrinfo o
    have heq := (passiveHints_eq_iff stack₁ stack₂ type).mpr hagree
    unfold inetPassiveSocket
    rw [heq]
    exact ⟨rfl, rfl⟩

/-- **What inetListen and inetBind depend on.** Their effect is independent of what was on the stack
exactly as far as `ai_protocol` and `ai_addrlen` are. -/
theorem passive_effect_independent_iff (stack₁ stack₂ : Hints) (fds : Finset ℕ)
    (service : Option (List UInt8)) (type backlog : BitVec 32) (addrlen : Option (BitVec 32)) :
    ((∀ getaddrinfo o, SameEffect
        (inetListen getaddrinfo o stack₁ fds service backlog addrlen)
        (inetListen getaddrinfo o stack₂ fds service backlog addrlen)) ↔
      stack₁.protocol = stack₂.protocol ∧ stack₁.addrlen = stack₂.addrlen) ∧
    ((∀ getaddrinfo o, SameEffect
        (inetBind getaddrinfo o stack₁ fds service type addrlen)
        (inetBind getaddrinfo o stack₂ fds service type addrlen)) ↔
      stack₁.protocol = stack₂.protocol ∧ stack₁.addrlen = stack₂.addrlen) :=
  ⟨inetPassiveSocket_same_iff stack₁ stack₂ fds service SOCK_STREAM addrlen true backlog,
    inetPassiveSocket_same_iff stack₁ stack₂ fds service type addrlen false 0⟩

/-- `getaddrinfo` as it treats a stream socket for TCP (6) or any protocol (0), and for others. -/
def streamResolver : Getaddrinfo := fun _ _ hints =>
  if hints.protocol = 0 ∨ hints.protocol = 6 then .ok [anyAddress] else .error (-7)

/-- With 17 (UDP) left in `ai_protocol`, `inetListen` finds no address. -/
theorem inetListen_depends_on_stack :
    ¬ SameEffect
      (inetListen streamResolver
        ⟨fun _ _ => true, fun _ _ => true, fun _ _ => true, fun _ _ => true, true⟩
        ⟨0, 0, 0, 0, 0, 0, 0, 0⟩ {0, 1, 2} (some [56, 48]) 10 none)
      (inetListen streamResolver
        ⟨fun _ _ => true, fun _ _ => true, fun _ _ => true, fun _ _ => true, true⟩
        ⟨0, 0, 0, 17, 0, 0, 0, 0⟩ {0, 1, 2} (some [56, 48]) 10 none) := by
  intro hsame
  have hret := hsame.1
  revert hret
  decide

end Tlpi.InetSockets
