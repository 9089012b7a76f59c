import Mathlib.Tactic

namespace LowLatency

/-- The bytes of a natural number in `size` bytes, the least significant one first. -/
def toBytes : ℕ → ℕ → List UInt8
  | 0, _ => []
  | size + 1, n => UInt8.ofNat n :: toBytes size (n / 256)

def ofBytes (bytes : List UInt8) : ℕ := Nat.ofDigits 256 (bytes.map UInt8.toNat)

theorem length_toBytes (size n : ℕ) : (toBytes size n).length = size := by
  induction size generalizing n with
  | zero => rfl
  | succ size ih => rw [toBytes, List.length_cons, ih]

theorem ofBytes_toBytes {size n : ℕ} (h : n < 256 ^ size) : ofBytes (toBytes size n) = n := by
  induction size generalizing n with
  | zero =>
    have hn : n = 0 := by simpa using h
    rw [hn, toBytes, ofBytes, List.map_nil, Nat.ofDigits_nil]
  | succ size ih =>
    have hdiv : n / 256 < 256 ^ size := by
      apply Nat.div_lt_of_lt_mul
      rwa [pow_succ'] at h
    have htail := ih hdiv
    rw [ofBytes] at htail
    rw [toBytes, ofBytes, List.map_cons, Nat.ofDigits_cons, htail, UInt8.toNat_ofNat']
    omega

theorem ofBytes_append (bytes bytes' : List UInt8) :
    ofBytes (bytes ++ bytes') = ofBytes bytes + 256 ^ bytes.length * ofBytes bytes' := by
  rw [ofBytes, List.map_append, Nat.ofDigits_append, List.length_map, ofBytes, ofBytes]

/-- The layout of a type in a packed structure: what fits it can be read back from the bytes. -/
structure Packed (T : Type) where
  size : ℕ
  encode : T → List UInt8
  decode : List UInt8 → T
  Fits : T → Prop
  length_encode : ∀ x, (encode x).length = size
  decode_encode : ∀ x, Fits x → decode (encode x) = x

namespace Packed

variable {T U : Type}

def uint (size : ℕ) : Packed ℕ where
  size := size
  encode := toBytes size
  decode := ofBytes
  Fits n := n < 256 ^ size
  length_encode := length_toBytes size
  decode_encode _ := ofBytes_toBytes

def int (size : ℕ) : Packed ℤ where
  size := size
  encode x := toBytes size (x % (256 ^ size : ℕ)).toNat
  decode bytes := (ofBytes bytes : ℤ).bmod (256 ^ size)
  Fits x := -(256 ^ size : ℕ) ≤ x * 2 ∧ x * 2 < (256 ^ size : ℕ)
  length_encode _ := length_toBytes size _
  decode_encode x h := by
    have hpos : (0 : ℤ) < (256 ^ size : ℕ) := by positivity
    have hnonneg := Int.emod_nonneg x hpos.ne'
    have hlt := Int.emod_lt_of_pos x hpos
    rw [ofBytes_toBytes (by omega), Int.toNat_of_nonneg hnonneg, Int.emod_bmod]
    exact Int.bmod_eq_of_le_mul_two h.1 h.2

/-- A type read through another one, such as an enumeration through its underlying type. -/
def map (P : Packed T) (f : T → U) (g : U → T) (h : ∀ u, f (g u) = u) : Packed U where
  size := P.size
  encode u := P.encode (g u)
  decode bytes := f (P.decode bytes)
  Fits u := P.Fits (g u)
  length_encode u := P.length_encode (g u)
  decode_encode u hu := by rw [P.decode_encode (g u) hu, h]

def prod (P : Packed T) (Q : Packed U) : Packed (T × U) where
  size := P.size + Q.size
  encode x := P.encode x.1 ++ Q.encode x.2
  decode bytes := (P.decode (bytes.take P.size), Q.decode (bytes.drop P.size))
  Fits x := P.Fits x.1 ∧ Q.Fits x.2
  length_encode x := by rw [List.length_append, P.length_encode, Q.length_encode]
  decode_encode x h := by
    rw [List.take_left' (P.length_encode x.1), List.drop_left' (P.length_encode x.1),
      P.decode_encode x.1 h.1, Q.decode_encode x.2 h.2]

end Packed

end LowLatency
