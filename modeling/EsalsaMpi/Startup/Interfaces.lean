import EsalsaMpi.Library.Loops
import Mathlib.Data.List.Basic

/-!
# The addresses of a gateway

`get_local_ips` goes over the interfaces of the machine twice: to count the IPv4
addresses, and to copy them.  The first loop passes over an interface that has no
address, and the second stays at it for ever.

So the function returns if and only if the machine has no such interface or no IPv4
address at all (`getsLocalIps_iff`).  Where it returns, the addresses are right.
-/

namespace EsalsaMpi

namespace Startup

/-- What `ifa_addr` points to, by `sa_family`. -/
inductive SocketAddress where
  | inet (sinAddr : UInt32)
  | inet6
  | other (family : Nat)
deriving DecidableEq, Repr

/-- An entry of the list that `getifaddrs` makes. -/
structure Interface where
  ifaName : String
  ifaAddr : Option SocketAddress
deriving DecidableEq, Repr

/-- `CONNECT_ERROR_CANNOT_FIND_IP`. -/
def connectErrorCannotFindIp : Nat := 14

/-- The IPv4 address of an interface that is not `lo`. -/
def Interface.localIp (i : Interface) : Option UInt32 :=
  match i.ifaAddr with
  | some (.inet sinAddr) => if i.ifaName ≠ "lo" then some sinAddr else none
  | _ => none

/-- The first loop of `get_local_ips`. -/
def countLocalIps : List Interface → Nat
  | [] => 0
  | current :: rest =>
    match current.ifaAddr with
    | some (.inet _) =>
      if current.ifaName ≠ "lo" then countLocalIps rest + 1 else countLocalIps rest
    | _ => countLocalIps rest

/-- What the second loop works on: the entries from `current` on, and `output` with the
number of places that are filled. -/
structure Copying where
  current : List Interface
  output : List (Option UInt32)
  index : Nat
deriving DecidableEq

/-- What `get_local_ips` returns: an error, or `output` and `count`. -/
inductive LocalIps where
  | error (code : Nat)
  | found (ip4ads : List (Option UInt32)) (ip4count : Nat)
deriving DecidableEq

/-- A round of the second loop, for `count` addresses.  With no address to look at it
continues before `current` has moved on. -/
def copyLocalIp (count : Nat) (s : Copying) : Copying ⊕ LocalIps :=
  match s.current with
  | [] => .inr (.found s.output count)
  | current :: rest =>
    match current.ifaAddr with
    | none => .inl s
    | some (.inet sinAddr) =>
      if current.ifaName ≠ "lo" then
        .inl ⟨rest, s.output.set s.index (some sinAddr), s.index + 1⟩
      else
        .inl { s with current := rest }
    | some _ => .inl { s with current := rest }

/-- `get_local_ips`, with a number of rounds for the second loop. -/
def getLocalIps (rounds : Nat) (addresses : List Interface) : Option LocalIps :=
  let count := countLocalIps addresses
  if count = 0 then
    some (.error connectErrorCannotFindIp)
  else
    Loops.run (copyLocalIp count) rounds ⟨addresses, List.replicate count none, 0⟩

/-- The addresses that there are. -/
def localIps (addresses : List Interface) : List UInt32 := addresses.filterMap Interface.localIp

/-- **The addresses of the machine**: the function returns, with all of them in the order
of the list and with their number, or with an error if there are none. -/
def GetsLocalIps (addresses : List Interface) : Prop :=
  ∃ rounds result, getLocalIps rounds addresses = some result ∧
    if localIps addresses = [] then
      ∃ code, result = .error code
    else
      result = .found ((localIps addresses).map some) (localIps addresses).length

variable {addresses : List Interface}

theorem localIps_append (l l' : List Interface) :
    localIps (l ++ l') = localIps l ++ localIps l' := List.filterMap_append

/-- The first loop counts the addresses. -/
theorem countLocalIps_eq (addresses : List Interface) :
    countLocalIps addresses = (localIps addresses).length := by
  induction addresses with
  | nil => rfl
  | cons current rest ih =>
      rw [countLocalIps, localIps, List.filterMap_cons, Interface.localIp]
      split
      · by_cases hlo : current.ifaName ≠ "lo"
        · simp only [if_pos hlo]
          rw [ih]
          rfl
        · simp only [if_neg hlo]
          exact ih
      · exact ih

/-- What the second loop has done when it is at `current`. -/
def Copied (addresses : List Interface) (s : Copying) : Prop :=
  ∃ before, addresses = before ++ s.current ∧ s.index = (localIps before).length ∧
    s.output = (localIps before).map some ++
      List.replicate ((localIps addresses).length - s.index) none

/-- A round fills the next place if it is at an address. -/
theorem copyLocalIp_cons {s : Copying} {current : Interface} {rest : List Interface} {count : Nat}
    (hs : s.current = current :: rest) (haddr : current.ifaAddr ≠ none) :
    copyLocalIp count s = .inl (match current.localIp with
      | some ip => ⟨rest, s.output.set s.index (some ip), s.index + 1⟩
      | none => { s with current := rest }) := by
  obtain ⟨address, haddr⟩ := Option.ne_none_iff_exists'.mp haddr
  simp only [copyLocalIp, hs, haddr, Interface.localIp]
  cases address with
  | inet ip => by_cases hlo : current.ifaName ≠ "lo" <;> simp [hlo]
  | inet6 => rfl
  | other family => rfl

/-- **A round** of the second loop goes on to the next interface. -/
theorem Copied.next {s s' : Copying} {count : Nat} (h : Copied addresses s)
    (hall : ∀ i ∈ addresses, i.ifaAddr ≠ none) (hstep : copyLocalIp count s = .inl s') :
    Copied addresses s' ∧ s'.current.length < s.current.length := by
  obtain ⟨before, haddresses, hindex, houtput⟩ := h
  cases hcurrent : s.current with
  | nil =>
      rw [copyLocalIp, hcurrent] at hstep
      cases hstep
  | cons current rest =>
      rw [hcurrent] at haddresses
      have haddr := hall current (by rw [haddresses]; simp)
      rw [copyLocalIp_cons hcurrent haddr] at hstep
      have hbefore : localIps (before ++ [current]) =
          localIps before ++ current.localIp.toList := by
        rw [localIps_append]
        cases h : current.localIp <;> simp [h, localIps]
      cases hip : current.localIp with
      | none =>
          rw [hip] at hstep hbefore
          cases hstep
          rw [Option.toList_none, List.append_nil] at hbefore
          refine ⟨⟨before ++ [current], ?_, ?_, ?_⟩, by simp⟩
          · rw [haddresses, List.append_assoc]
            rfl
          · rw [hbefore]
            exact hindex
          · rw [hbefore]
            exact houtput
      | some ip =>
          rw [hip] at hstep hbefore
          cases hstep
          -- there is a place left for this address
          have hroom : (localIps addresses).length - s.index =
              ((localIps addresses).length - (s.index + 1)) + 1 := by
            have hle : (localIps (before ++ [current])).length ≤ (localIps addresses).length := by
              rw [haddresses, List.append_cons before current rest, localIps_append _ rest,
                List.length_append]
              exact Nat.le_add_right _ _
            rw [hbefore, List.length_append, ← hindex] at hle
            have : s.index + 1 ≤ (localIps addresses).length := hle
            omega
          refine ⟨⟨before ++ [current], ?_, ?_, ?_⟩, by simp⟩
          · rw [haddresses, List.append_assoc]
            rfl
          · rw [hbefore, List.length_append, ← hindex]
            rfl
          · show s.output.set s.index (some ip) = _
            rw [hbefore, houtput, hroom, List.replicate_succ, List.set_append, List.length_map,
              ← hindex, if_neg (Nat.lt_irrefl _), Nat.sub_self]
            simp

/-- The second loop begins. -/
theorem copied_start (addresses : List Interface) :
    Copied addresses ⟨addresses, List.replicate (localIps addresses).length none, 0⟩ :=
  ⟨[], rfl, rfl, rfl⟩

/-- Without an address to look at the second loop makes no progress. -/
theorem not_stops_copyLocalIp {i : Interface} (hi : i ∈ addresses) (haddr : i.ifaAddr = none)
    (output : List (Option UInt32)) (count : Nat) :
    ¬ Loops.Stops (copyLocalIp count) ⟨addresses, output, 0⟩ := by
  refine Loops.not_stops (J := fun s => i ∈ s.current) hi ?_
  intro s hs
  cases hcurrent : s.current with
  | nil =>
      rw [hcurrent] at hs
      cases hs
  | cons current rest =>
      by_cases hnone : current.ifaAddr = none
      · exact ⟨s, by simp only [copyLocalIp, hcurrent, hnone], hs⟩
      · refine ⟨_, copyLocalIp_cons hcurrent hnone, ?_⟩
        have hrest : i ∈ rest := by
          rw [hcurrent] at hs
          rcases List.mem_cons.mp hs with rfl | hs
          · exact absurd haddr hnone
          · exact hs
        cases current.localIp <;> exact hrest

/-- **The addresses of a machine.**  `get_local_ips` returns them if and only if every
interface has an address or there is none to return. -/
theorem getsLocalIps_iff (addresses : List Interface) :
    GetsLocalIps addresses ↔
      (∀ i ∈ addresses, i.ifaAddr ≠ none) ∨ ∀ i ∈ addresses, i.localIp = none := by
  have hempty : localIps addresses = [] ↔ ∀ i ∈ addresses, i.localIp = none :=
    List.filterMap_eq_nil_iff
  have hcount := countLocalIps_eq addresses
  by_cases hnil : localIps addresses = []
  · refine iff_of_true ⟨0, .error connectErrorCannotFindIp, ?_, ?_⟩ (Or.inr (hempty.mp hnil))
    · rw [getLocalIps, hcount, hnil]
      rfl
    · rw [if_pos hnil]
      exact ⟨_, rfl⟩
  · have hloop : ∀ rounds, getLocalIps rounds addresses =
        Loops.run (copyLocalIp (localIps addresses).length) rounds
          ⟨addresses, List.replicate (localIps addresses).length none, 0⟩ := by
      intro rounds
      simp only [getLocalIps, hcount]
      rw [if_neg fun hzero => hnil (List.eq_nil_of_length_eq_zero hzero)]
    constructor
    · rintro ⟨rounds, result, hresult, _⟩
      left
      intro i hi haddr
      rw [hloop] at hresult
      exact not_stops_copyLocalIp hi haddr _ _ ⟨result, rounds, hresult⟩
    · rintro (hall | hnone)
      · obtain ⟨result, hreturns⟩ := Loops.stops_of_measure (fun s : Copying => s.current.length)
          (copied_start addresses) fun s s' hs hstep => hs.next hall hstep
        obtain ⟨rounds, hrounds⟩ := hreturns
        refine ⟨rounds, result, (hloop rounds).trans hrounds, ?_⟩
        obtain ⟨s, ⟨before, haddresses, hindex, houtput⟩, hlast⟩ :=
          Loops.Returns.invariant ⟨rounds, hrounds⟩ (copied_start addresses)
            fun s s' hs hstep => (hs.next hall hstep).1
        rw [if_neg hnil]
        cases hcurrent : s.current with
        | nil =>
            rw [hcurrent, List.append_nil] at haddresses
            rw [← haddresses] at hindex houtput
            rw [copyLocalIp, hcurrent] at hlast
            cases hlast
            rw [houtput, hindex, Nat.sub_self, List.replicate_zero, List.append_nil]
        | cons current rest =>
            have haddr := hall current (by rw [haddresses, hcurrent]; simp)
            rw [copyLocalIp_cons hcurrent haddr] at hlast
            cases hlast
      · exact absurd (hempty.mpr hnone) hnil

/-- A machine with a tunnel that has no address. -/
def withTunnel : List Interface :=
  [⟨"lo", some (.inet 0x0100007f)⟩, ⟨"eth0", some (.inet 0x0100000a)⟩, ⟨"tun0", none⟩]

/-- The function does not return on this machine, although it has an address. -/
theorem not_getsLocalIps_withTunnel :
    localIps withTunnel = [0x0100000a] ∧
      (∀ rounds, getLocalIps rounds withTunnel = none) ∧ ¬ GetsLocalIps withTunnel := by
  have hnever : ∀ rounds, getLocalIps rounds withTunnel = none := by
    intro rounds
    rw [Option.eq_none_iff_forall_ne_some]
    intro result hresult
    have hmem : (⟨"tun0", none⟩ : Interface) ∈ withTunnel := by decide
    exact not_stops_copyLocalIp hmem rfl _ _ ⟨result, rounds, hresult⟩
  refine ⟨by decide, hnever, ?_⟩
  rintro ⟨rounds, result, hresult, _⟩
  rw [hnever] at hresult
  cases hresult

end Startup

end EsalsaMpi
