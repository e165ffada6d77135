import Mathlib.Data.List.Basic
import Mathlib.Tactic.Common

/-!
# The network of a cluster

A cluster says in CIDR notation from which network the addresses of its gateways should be:
the server makes a netmask of the number of bits, and selects the first address of a gateway
that is equal to the network under the mask.

The mask is made of whole bytes, and of a last byte for the bits that are left.  The bit for
this byte starts as `(byte) (1 << 8)`, which is 0, and stays so.  A prefix of 12 bits is thus
tested in its first 8 only, and what is selected is right if and only if the first address
that agrees in the whole bytes agrees in all the bits (`selectsFirst_iff`).
-/

namespace EsalsaMpi

namespace Networks

/-- An IPv4 address. -/
@[ext] structure Ipv4 where
  bytes : List UInt8
  length_bytes : bytes.length = 4

instance : DecidableEq Ipv4 := fun _ _ => decidable_of_iff' _ Ipv4.ext_iff

/-- A network `a.b.c.d/bits`. -/
structure Cidr where
  network : Ipv4
  bits : Nat
  bits_le : bits ≤ 32

/-- The first loop of `generateNetmask`: the bytes, the index, and the bits that are left.
Behind the end of the array it throws. -/
def wholeBytes : Nat → List UInt8 → Nat → Option (List UInt8 × Nat × Nat)
  | bits + 8, result, index =>
    if index < result.length then
      wholeBytes bits (result.set index 0xFF) (index + 1)
    else
      none
  | bits, result, index => some (result, index, bits)

/-- The second loop of `generateNetmask`.  The shift of a `byte` keeps its sign. -/
def lastByte : Nat → Int8 → List UInt8 → Nat → Option (List UInt8)
  | 0, _, result, _ => some result
  | bits + 1, tmp, result, index =>
    result[index]?.bind fun byte =>
      lastByte bits (tmp >>> 1) (result.set index (byte ||| tmp.toUInt8)) index

/-- `Server.generateNetmask`; `none` when it throws. -/
def generateNetmask (bits : Nat) : Option (List UInt8) :=
  (wholeBytes bits (List.replicate 4 0) 0).bind fun (result, index, bits) =>
    lastByte bits ((1 : Int32) <<< 8).toInt8 result index

/-- `Cluster.applyMask`. -/
def applyMask (input mask : List UInt8) : List UInt8 := input.zipWith (· &&& ·) mask

/-- `Cluster.match`; `none` when it throws. -/
def matchNetwork (address subnet netmask : List UInt8) : Option Bool :=
  if address.length ≠ subnet.length ∨ address.length ≠ netmask.length then
    none
  else
    some (applyMask address netmask = applyMask subnet netmask)

/-- `Cluster.selectAddress`; `none` when it throws. -/
def selectAddress (network netmask : List UInt8) : List Ipv4 → Option Ipv4
  | [] => none
  | address :: addresses =>
    match matchNetwork address.bytes network netmask with
    | none => none
    | some true => some address
    | some false => selectAddress network netmask addresses

/-- The address of a gateway in a cluster that the configuration file gives this network. -/
def Cidr.select (c : Cidr) (addresses : List Ipv4) : Option Ipv4 :=
  (generateNetmask c.bits).bind fun netmask => selectAddress c.network.bytes netmask addresses

/-- Bit `i` of an address, from the left. -/
def leadingBit (bytes : List UInt8) (i : Nat) : Bool :=
  (bytes.getD (i / 8) 0).toNat.testBit (7 - i % 8)

/-- The first `bits` bits are equal. -/
def Agree (bits : Nat) (a b : List UInt8) : Prop := ∀ i < bits, leadingBit a i = leadingBit b i

instance (bits : Nat) (a b : List UInt8) : Decidable (Agree bits a b) :=
  Nat.decidableBallLT bits fun i _ => leadingBit a i = leadingBit b i

/-- **CIDR**: the first address whose leading bits are those of the network is selected, and
an exception is thrown if there is none. -/
def SelectsFirst (c : Cidr) (addresses : List Ipv4) : Prop :=
  c.select addresses = addresses.find? fun a => Agree c.bits a.bytes c.network.bytes

/-- Bytes are equal if their bits are, from the left. -/
theorem eq_of_testBit {x y : UInt8} (h : ∀ i < 8, x.toNat.testBit (7 - i) = y.toNat.testBit (7 - i)) :
    x = y := by
  refine UInt8.toNat_inj.mp (Nat.eq_of_testBit_eq fun j => ?_)
  by_cases hj : j < 8
  · have hbit := h (7 - j) (by omega)
    rwa [show 7 - (7 - j) = j by omega] at hbit
  · have hlt : ∀ z : UInt8, z.toNat < 2 ^ j := fun z =>
      Nat.lt_of_lt_of_le z.toNat_lt (Nat.pow_le_pow_right (by omega) (by omega))
    rw [Nat.testBit_lt_two_pow (hlt x), Nat.testBit_lt_two_pow (hlt y)]

/-- A byte in front moves the bits by eight. -/
theorem leadingBit_cons_add (x : UInt8) (a : List UInt8) (i : Nat) :
    leadingBit (x :: a) (i + 8) = leadingBit a i := by
  rw [leadingBit, Nat.add_div_right i (by omega), Nat.add_mod_right]
  rfl

theorem leadingBit_cons_of_lt (x : UInt8) (a : List UInt8) {i : Nat} (hi : i < 8) :
    leadingBit (x :: a) i = x.toNat.testBit (7 - i) := by
  rw [leadingBit, Nat.div_eq_of_lt hi, Nat.mod_eq_of_lt hi]
  rfl

/-- The first byte is eight bits of an address. -/
theorem agree_cons (bits : Nat) (x y : UInt8) (a b : List UInt8) :
    Agree (bits + 8) (x :: a) (y :: b) ↔ x = y ∧ Agree bits a b := by
  constructor
  · intro h
    refine ⟨eq_of_testBit fun i hi => ?_, fun i hi => ?_⟩
    · have hbit := h i (by omega)
      rwa [leadingBit_cons_of_lt x a hi, leadingBit_cons_of_lt y b hi] at hbit
    · have hbit := h (i + 8) (by omega)
      rwa [leadingBit_cons_add, leadingBit_cons_add] at hbit
  · intro ⟨hxy, h⟩ i hi
    by_cases hlt : i < 8
    · rw [leadingBit_cons_of_lt x a hlt, leadingBit_cons_of_lt y b hlt, hxy]
    · obtain ⟨j, rfl⟩ := Nat.exists_eq_add_of_le' (Nat.le_of_not_lt hlt)
      rw [leadingBit_cons_add, leadingBit_cons_add]
      exact h j (by omega)

/-- **Whole bytes** of two addresses of one length. -/
theorem agree_whole {n : Nat} {a b : List UInt8} (hlength : a.length = b.length)
    (hn : n ≤ a.length) : Agree (8 * n) a b ↔ a.take n = b.take n := by
  induction n generalizing a b with
  | zero => exact iff_of_true (fun i hi => by omega) rfl
  | succ n ih =>
      cases a with
      | nil => cases hn
      | cons x a =>
          cases b with
          | nil => cases hlength
          | cons y b =>
              rw [Nat.mul_succ, agree_cons, ih (Nat.succ.inj hlength) (Nat.le_of_succ_le_succ hn),
                List.take_succ_cons, List.take_succ_cons, List.cons.injEq]

/-- Fewer bits. -/
theorem Agree.mono {bits bits' : Nat} {a b : List UInt8} (h : Agree bits a b)
    (hle : bits' ≤ bits) : Agree bits' a b :=
  fun i hi => h i (Nat.lt_of_lt_of_le hi hle)

/-- The mask of `n` whole bytes. -/
def maskOf (n : Nat) : List UInt8 := List.replicate n 0xFF ++ List.replicate (4 - n) 0

theorem wholeBytes_of_lt {bits : Nat} (h : bits < 8) (result : List UInt8) (index : Nat) :
    wholeBytes bits result index = some (result, index, bits) := by
  rw [wholeBytes]
  intro n
  omega

/-- The first loop, from the mask of `index` bytes on. -/
theorem wholeBytes_maskOf (bits index : Nat) (hroom : bits + 8 * index ≤ 32) :
    wholeBytes bits (maskOf index) index =
      some (maskOf (index + bits / 8), index + bits / 8, bits % 8) := by
  by_cases hlt : bits < 8
  · rw [wholeBytes_of_lt hlt, Nat.div_eq_of_lt hlt, Nat.mod_eq_of_lt hlt]
    rfl
  · obtain ⟨rest, rfl⟩ := Nat.exists_eq_add_of_le' (Nat.le_of_not_lt hlt)
    have hindex : index < (maskOf index).length := by
      rw [maskOf, List.length_append, List.length_replicate, List.length_replicate]
      omega
    have hset : (maskOf index).set index 0xFF = maskOf (index + 1) := by
      rw [maskOf, List.set_append_right _ _ (Nat.le_of_eq List.length_replicate),
        List.length_replicate, Nat.sub_self, show 4 - index = (4 - (index + 1)) + 1 by omega,
        List.replicate_succ, List.set_cons_zero, maskOf, List.replicate_succ', List.append_assoc]
      rfl
    rw [wholeBytes, if_pos hindex, hset, wholeBytes_maskOf rest (index + 1) (by omega),
      Nat.add_div_right rest (by omega), Nat.add_mod_right,
      show index + (rest / 8).succ = index + 1 + rest / 8 by omega]
termination_by bits

/-- The bit of the second loop is 0, and nothing is added. -/
theorem lastByte_zero {bits index : Nat} {result : List UInt8}
    (h : bits ≠ 0 → index < result.length) : lastByte bits 0 result index = some result := by
  induction bits with
  | zero => rfl
  | succ bits ih =>
      have hindex := h (Nat.succ_ne_zero bits)
      have hshift : (0 : Int8) >>> 1 = 0 := by decide
      have hor : result[index] ||| (0 : Int8).toUInt8 = result[index] := UInt8.or_zero
      rw [lastByte, List.getElem?_eq_getElem hindex, Option.bind_some, hshift, hor,
        List.set_getElem_self]
      exact ih fun _ => hindex

/-- **The netmask** has the whole bytes only. -/
theorem generateNetmask_eq {bits : Nat} (h : bits ≤ 32) :
    generateNetmask bits = some (maskOf (bits / 8)) := by
  have hwhole := wholeBytes_maskOf bits 0 (by omega)
  have htmp : ((1 : Int32) <<< 8).toInt8 = 0 := by decide
  rw [Nat.zero_add] at hwhole
  rw [generateNetmask, show List.replicate 4 0 = maskOf 0 from rfl, hwhole, Option.bind_some, htmp]
  refine lastByte_zero fun hbits => ?_
  rw [maskOf, List.length_append, List.length_replicate, List.length_replicate]
  omega

/-- What is left of bytes under a mask. -/
theorem applyMask_eq {n m : Nat} {a : List UInt8} (h : a.length = n + m) :
    applyMask a (List.replicate n 0xFF ++ List.replicate m 0) =
      a.take n ++ List.replicate m 0 := by
  induction n generalizing a with
  | zero =>
      have hall : ∀ x : UInt8, x &&& 0 = 0 := fun x => UInt8.and_zero
      rw [Nat.zero_add] at h
      subst h
      rw [List.replicate_zero, List.nil_append, List.take_zero, List.nil_append, applyMask]
      induction a with
      | nil => rfl
      | cons x a ih =>
          rw [List.length_cons, List.replicate_succ, List.zipWith_cons_cons, ih, hall]
  | succ n ih =>
      cases a with
      | nil =>
          rw [List.length_nil] at h
          omega
      | cons x a =>
          have hx : x &&& 0xFF = x := UInt8.and_neg_one
          rw [List.replicate_succ, List.cons_append, applyMask, List.zipWith_cons_cons, hx,
            List.take_succ_cons, List.cons_append]
          exact congrArg (x :: ·) (ih (by simp at h; omega))

/-- An address matches if it agrees in the whole bytes. -/
theorem matchNetwork_eq (a b : Ipv4) {n : Nat} (hn : n ≤ 4) :
    matchNetwork a.bytes b.bytes (maskOf n) = some (decide (Agree (8 * n) a.bytes b.bytes)) := by
  have hlength : (maskOf n).length = 4 := by
    rw [maskOf, List.length_append, List.length_replicate, List.length_replicate]
    omega
  have hmask : ∀ c : Ipv4, applyMask c.bytes (maskOf n) =
      c.bytes.take n ++ List.replicate (4 - n) 0 := fun c =>
    applyMask_eq (c.length_bytes.trans (by omega))
  rw [matchNetwork, a.length_bytes, b.length_bytes, hlength, if_neg (by omega), hmask, hmask]
  have hagree := agree_whole (n := n) (a.length_bytes.trans b.length_bytes.symm)
    (by rwa [a.length_bytes])
  simp only [List.append_left_inj, hagree]

/-- The first address that matches. -/
theorem selectAddress_eq (network : Ipv4) {n : Nat} (hn : n ≤ 4) (addresses : List Ipv4) :
    selectAddress network.bytes (maskOf n) addresses =
      addresses.find? fun a => Agree (8 * n) a.bytes network.bytes := by
  induction addresses with
  | nil => rfl
  | cons a addresses ih =>
      rw [selectAddress, matchNetwork_eq a network hn, List.find?_cons]
      by_cases hagree : Agree (8 * n) a.bytes network.bytes
      · rw [decide_eq_true hagree]
      · rw [decide_eq_false hagree]
        exact ih

/-- **What is selected** agrees with the network in the whole bytes. -/
theorem Cidr.select_eq (c : Cidr) (addresses : List Ipv4) :
    c.select addresses =
      addresses.find? fun a => Agree (8 * (c.bits / 8)) a.bytes c.network.bytes := by
  have hbits := c.bits_le
  rw [Cidr.select, generateNetmask_eq hbits, Option.bind_some]
  exact selectAddress_eq c.network (by omega) addresses

/-- The first element with `p` is the first with `q`, which says more, if and only if `q`
is true of it. -/
theorem find?_eq_find?_iff {α : Type} {p q : α → Bool} (hpq : ∀ a, q a = true → p a = true)
    (l : List α) : l.find? p = l.find? q ↔ ∀ a, l.find? p = some a → q a = true := by
  constructor
  · intro h a ha
    exact List.find?_some (h ▸ ha)
  · intro h
    cases hp : l.find? p with
    | none =>
        rw [List.find?_eq_none] at hp
        exact (List.find?_eq_none.mpr fun a ha hq => hp a ha (hpq a hq)).symm
    | some a =>
        obtain ⟨-, before, after, hl, hbefore⟩ := List.find?_eq_some_iff_append.mp hp
        refine (List.find?_eq_some_iff_append.mpr ⟨h a hp, before, after, hl, fun b hb => ?_⟩).symm
        have hnot : ¬ p b = true := by simpa using hbefore b hb
        simpa using fun hq => hnot (hpq b hq)

/-- **The networks of gateways.**  The first address in the network is selected if and only
if the first address that agrees with the network in the whole bytes of the prefix, if there
is one, agrees in all the bits of the prefix. -/
theorem selectsFirst_iff (c : Cidr) (addresses : List Ipv4) :
    SelectsFirst c addresses ↔
      ∀ a, (addresses.find? fun a => Agree (8 * (c.bits / 8)) a.bytes c.network.bytes) = some a →
        Agree c.bits a.bytes c.network.bytes := by
  rw [SelectsFirst, c.select_eq addresses, find?_eq_find?_iff]
  · simp only [decide_eq_true_eq]
  · intro a ha
    exact decide_eq_true ((of_decide_eq_true ha).mono (Nat.mul_div_le c.bits 8))

/-- 172.16.0.0/12. -/
def twelveBits : Cidr where
  network := ⟨[172, 16, 0, 0], rfl⟩
  bits := 12
  bits_le := by decide

/-- A gateway with the addresses 172.32.0.1, which is outside of the network, and 172.16.0.1
gets the first. -/
theorem not_selectsFirst_twelveBits :
    twelveBits.select [⟨[172, 32, 0, 1], rfl⟩, ⟨[172, 16, 0, 1], rfl⟩] =
        some ⟨[172, 32, 0, 1], rfl⟩ ∧
      ¬ Agree 12 [172, 32, 0, 1] [172, 16, 0, 0] ∧ Agree 12 [172, 16, 0, 1] [172, 16, 0, 0] ∧
      ¬ SelectsFirst twelveBits [⟨[172, 32, 0, 1], rfl⟩, ⟨[172, 16, 0, 1], rfl⟩] := by
  have hselected : twelveBits.select [⟨[172, 32, 0, 1], rfl⟩, ⟨[172, 16, 0, 1], rfl⟩] =
      some ⟨[172, 32, 0, 1], rfl⟩ := by decide
  refine ⟨hselected, by decide, by decide, fun h => ?_⟩
  rw [SelectsFirst, hselected] at h
  exact absurd h (by decide)

end Networks

end EsalsaMpi
