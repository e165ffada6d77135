import Mathlib.Algebra.Group.Nat.Defs
import Mathlib.Data.List.Basic
import Mathlib.Data.List.TakeDrop

/-!
# Words on the wire

A 32-bit word travels as four bytes, the most significant one first.  A
machine keeps the four bytes of a word in its own order, so it converts a word
with `htonl` before it stores it and with `ntohl` after it has loaded it.

* `load_store` and `store_htonl`, `ntohl_load`: a word that is converted and
  stored on one machine and loaded and converted on another is the same word;
* `networkWord_bytesOf`: in a block of words, place `k` holds word `k`, and
  the places behind the last word hold nothing;
* `readInt_toBytes`: a stream gives back the words written to it.
-/

namespace Wire

/-- The order in which a machine stores the bytes of a word. -/
inductive ByteOrder where
  | little
  | big
deriving DecidableEq, Repr

/-- The word with the given bytes, the most significant one first. -/
def ofBytes (a b c d : UInt8) : UInt32 :=
  UInt32.ofNat (a.toNat * 2 ^ 24 + b.toNat * 2 ^ 16 + c.toNat * 2 ^ 8 + d.toNat)

/-- Byte `k` of a word, counted from the least significant one. -/
def byte (w : UInt32) (k : Nat) : UInt8 := UInt8.ofNat (w.toNat / 2 ^ (8 * k))

/-- The bytes of a word in the order of the network. -/
def toBytes (w : UInt32) : List UInt8 := [byte w 3, byte w 2, byte w 1, byte w 0]

@[simp] theorem length_toBytes (w : UInt32) : (toBytes w).length = 4 := rfl

theorem ofBytes_byte (w : UInt32) :
    ofBytes (byte w 3) (byte w 2) (byte w 1) (byte w 0) = w := by
  have hlt := w.toNat_lt
  apply UInt32.toNat_inj.mp
  simp only [ofBytes, byte, UInt32.toNat_ofNat', UInt8.toNat_ofNat']
  omega

/-- The bytes of the word with given bytes. -/
theorem toBytes_ofBytes (a b c d : UInt8) : toBytes (ofBytes a b c d) = [a, b, c, d] := by
  have ha := a.toNat_lt
  have hb := b.toNat_lt
  have hc := c.toNat_lt
  have hd := d.toNat_lt
  have hword : (ofBytes a b c d).toNat =
      a.toNat * 2 ^ 24 + b.toNat * 2 ^ 16 + c.toNat * 2 ^ 8 + d.toNat := by
    rw [ofBytes, UInt32.toNat_ofNat']
    omega
  have hbyte : ∀ (k : Nat) (x : UInt8),
      (ofBytes a b c d).toNat / 2 ^ (8 * k) % 2 ^ 8 = x.toNat → byte (ofBytes a b c d) k = x := by
    intro k x h
    apply UInt8.toNat_inj.mp
    rw [byte, UInt8.toNat_ofNat']
    exact h
  rw [toBytes, hbyte 3 a (by rw [hword]; omega), hbyte 2 b (by rw [hword]; omega),
    hbyte 1 c (by rw [hword]; omega), hbyte 0 d (by rw [hword]; omega)]

namespace ByteOrder

/-- The word with the given bytes in memory, at ascending addresses. -/
def word : ByteOrder → UInt8 → UInt8 → UInt8 → UInt8 → UInt32
  | .big, a, b, c, d => ofBytes a b c d
  | .little, a, b, c, d => ofBytes d c b a

/-- The bytes of a word in memory, at ascending addresses. -/
def store : ByteOrder → UInt32 → List UInt8
  | .big, w => toBytes w
  | .little, w => (toBytes w).reverse

/-- Conversion of a word of the machine to the order of the network. -/
def htonl : ByteOrder → UInt32 → UInt32
  | .big, w => w
  | .little, w => ofBytes (byte w 0) (byte w 1) (byte w 2) (byte w 3)

/-- Conversion of a word in the order of the network to one of the machine. -/
def ntohl (o : ByteOrder) (w : UInt32) : UInt32 := o.htonl w

/-- The word at an address, if it is inside of the memory. -/
def load (o : ByteOrder) (m : List UInt8) (offset : Nat) : Option UInt32 :=
  match m.drop offset with
  | a :: b :: c :: d :: _ => some (o.word a b c d)
  | _ => none

/-- Word `k` of a block, whose words are in the order of the network. -/
def networkWord (o : ByteOrder) (m : List UInt8) (k : Nat) : Option UInt32 :=
  (o.load m (4 * k)).map o.ntohl

variable (o : ByteOrder)

@[simp] theorem length_store (w : UInt32) : (o.store w).length = 4 := by
  cases o <;> rfl

/-- A machine reads back what it has stored. -/
theorem load_store (w : UInt32) (rest : List UInt8) :
    o.load (o.store w ++ rest) 0 = some w := by
  cases o <;> exact congrArg some (ofBytes_byte w)

/-- Storing a converted word puts it into the order of the network. -/
theorem store_htonl (w : UInt32) : o.store (o.htonl w) = toBytes w := by
  cases o with
  | big => rfl
  | little => rw [store, htonl, toBytes_ofBytes, toBytes]; rfl

/-- Converting a word loaded from the order of the network. -/
theorem ntohl_word (a b c d : UInt8) : o.ntohl (o.word a b c d) = ofBytes a b c d := by
  cases o with
  | big => rfl
  | little =>
      have hbytes := toBytes_ofBytes d c b a
      simp only [toBytes, List.cons.injEq, and_true] at hbytes
      obtain ⟨hd, hc, hb, ha⟩ := hbytes
      rw [ntohl, word, htonl, ha, hb, hc, hd]

/-- A word in the order of the network is the same on every machine. -/
theorem ntohl_load (m : List UInt8) (offset : Nat) :
    (o.load m offset).map o.ntohl = big.load m offset := by
  unfold load
  split
  · rw [Option.map_some, ntohl_word]
    rfl
  · rfl

/-- The words that a machine has stored in a row. -/
theorem load_flatMap_store (ws : List UInt32) (rest : List UInt8) {k : Nat}
    (hk : k < ws.length) : o.load (ws.flatMap o.store ++ rest) (4 * k) = ws[k]? := by
  induction ws generalizing k with
  | nil => exact absurd hk (Nat.not_lt_zero k)
  | cons w ws ih =>
      rw [List.flatMap_cons, List.append_assoc]
      cases k with
      | zero => exact o.load_store w _
      | succ k =>
          have hdrop : (o.store w ++ (ws.flatMap o.store ++ rest)).drop (4 * (k + 1)) =
              (ws.flatMap o.store ++ rest).drop (4 * k) := by
            rw [List.drop_append, length_store,
              List.drop_eq_nil_of_le (by rw [length_store]; omega), List.nil_append]
            congr 1
          rw [List.getElem?_cons_succ, ← ih (Nat.lt_of_succ_lt_succ hk), load, load, hdrop]

/-- A load looks at four bytes. -/
theorem load_take (m : List UInt8) {offset n : Nat} (h : offset + 4 ≤ n) :
    o.load (m.take n) offset = o.load m offset := by
  obtain ⟨k, hk⟩ : ∃ k, n - offset = k + 4 := ⟨n - offset - 4, by omega⟩
  rw [load, load, List.drop_take, hk]
  rcases m.drop offset with _ | ⟨a, _ | ⟨b, _ | ⟨c, _ | ⟨d, rest⟩⟩⟩⟩ <;> rfl

end ByteOrder

/-- A block of words in the order of the network. -/
def bytesOf (ws : List UInt32) : List UInt8 := ws.flatMap toBytes

@[simp] theorem bytesOf_nil : bytesOf [] = [] := rfl

theorem bytesOf_cons (w : UInt32) (ws : List UInt32) :
    bytesOf (w :: ws) = toBytes w ++ bytesOf ws := rfl

theorem bytesOf_append (ws vs : List UInt32) :
    bytesOf (ws ++ vs) = bytesOf ws ++ bytesOf vs := List.flatMap_append

@[simp] theorem length_bytesOf (ws : List UInt32) : (bytesOf ws).length = 4 * ws.length := by
  induction ws with
  | nil => rfl
  | cons w ws ih =>
      rw [bytesOf_cons, List.length_append, length_toBytes, ih, List.length_cons]
      omega

/-- **The words of a block.**  Behind the last word there is nothing. -/
theorem networkWord_bytesOf (o : ByteOrder) (ws : List UInt32) (k : Nat) :
    o.networkWord (bytesOf ws) k = ws[k]? := by
  induction ws generalizing k with
  | nil => simp [ByteOrder.networkWord, ByteOrder.load]
  | cons w ws ih =>
      cases k with
      | zero =>
          have hload : o.load (bytesOf (w :: ws)) 0 =
              some (o.word (byte w 3) (byte w 2) (byte w 1) (byte w 0)) := rfl
          rw [ByteOrder.networkWord, Nat.mul_zero, hload, Option.map_some, o.ntohl_word,
            ofBytes_byte]
          rfl
      | succ k =>
          have hdrop : (bytesOf (w :: ws)).drop (4 * (k + 1)) = (bytesOf ws).drop (4 * k) := by
            rw [bytesOf_cons, List.drop_append, length_toBytes,
              List.drop_eq_nil_of_le (by rw [length_toBytes]; omega), List.nil_append]
            congr 1
          rw [List.getElem?_cons_succ, ← ih k, ByteOrder.networkWord, ByteOrder.networkWord,
            ByteOrder.load, ByteOrder.load, hdrop]

/-- Reading a row entry by entry. -/
theorem mapM_range_eq_some {α : Type*} {f : Nat → Option α} {row : List α}
    (h : ∀ i < row.length, f i = row[i]?) : (List.range row.length).mapM f = some row := by
  induction row generalizing f with
  | nil => rfl
  | cons a row ih =>
      have hfirst : f 0 = some a := h 0 (Nat.zero_lt_succ _)
      have hrest : (List.range row.length).mapM (fun i => f (i + 1)) = some row :=
        ih fun i hi => h (i + 1) (Nat.succ_lt_succ hi)
      rw [List.length_cons, List.range_succ_eq_map, List.mapM_cons, hfirst, List.mapM_map]
      simp only [Function.comp_def, Nat.succ_eq_add_one, hrest]
      rfl

/-- A row of words inside of a block. -/
theorem networkWord_row (o : ByteOrder) (before row after : List UInt32) {i : Nat}
    (hi : i < row.length) :
    o.networkWord (bytesOf (before ++ row ++ after)) (before.length + i) = row[i]? := by
  rw [networkWord_bytesOf, List.append_assoc, List.getElem?_append_right (by omega),
    Nat.add_sub_cancel_left, List.getElem?_append_left hi]

/-- Reading the next word of a stream, `none` at its end. -/
def readInt : List UInt8 → Option (UInt32 × List UInt8)
  | a :: b :: c :: d :: rest => some (ofBytes a b c d, rest)
  | _ => none

/-- A stream gives back the words written to it. -/
@[simp] theorem readInt_toBytes (w : UInt32) (rest : List UInt8) :
    readInt (toBytes w ++ rest) = some (w, rest) :=
  congrArg (fun v => some (v, rest)) (ofBytes_byte w)

end Wire
