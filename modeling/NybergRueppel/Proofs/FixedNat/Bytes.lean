import NybergRueppel.Proofs.FixedNat.Value
import NybergRueppel.Proofs.Limbs.Digits

/-!
Bytes in big-endian order as numbers. Reading bytes into limbs keeps their number, up to what lies
above the width, and the bytes that are written for limbs are those of their number.
-/
namespace NybergRueppel

/-- The number that bytes stand for, the most significant byte first. -/
def bigEndian (bytes : List UInt8) : Nat :=
  Nat.ofDigits 256 (bytes.reverse.map UInt8.toNat)

theorem bigEndian_append (high low : List UInt8) :
    bigEndian (high ++ low) = bigEndian low + 256 ^ low.length * bigEndian high := by
  rw [bigEndian, List.reverse_append, List.map_append, Nat.ofDigits_append, List.length_map,
    List.length_reverse, bigEndian, bigEndian]

theorem bigEndian_singleton (b : UInt8) : bigEndian [b] = b.toNat :=
  Nat.ofDigits_singleton

theorem bigEndian_cons (b : UInt8) (bytes : List UInt8) :
    bigEndian (b :: bytes) = bigEndian bytes + 256 ^ bytes.length * b.toNat := by
  rw [← List.singleton_append, bigEndian_append, bigEndian_singleton]

theorem byte_lt_of_mem (bytes : List UInt8) : ∀ d ∈ bytes.reverse.map UInt8.toNat, d < 256 := by
  intro d hd
  obtain ⟨b, -, rfl⟩ := List.mem_map.mp hd
  exact b.toNat_lt

theorem bigEndian_lt (bytes : List UInt8) : bigEndian bytes < 256 ^ bytes.length := by
  have hLess := Nat.ofDigits_lt_base_pow_length (by decide) (byte_lt_of_mem bytes)
  rwa [List.length_map, List.length_reverse] at hLess

/-- Bytes of one length are told apart by their numbers. -/
theorem eq_of_bigEndian_eq {xs ys : List UInt8} (hLength : xs.length = ys.length)
    (h : bigEndian xs = bigEndian ys) : xs = ys := by
  have hDigits := Nat.ofDigits_inj_of_len_eq (by decide)
    (by rw [List.length_map, List.length_map, List.length_reverse, List.length_reverse, hLength])
    (byte_lt_of_mem xs) (byte_lt_of_mem ys) h
  exact List.reverse_inj.mp ((List.map_inj_right fun _ _ => UInt8.toNat_inj.mp).mp hDigits)

/-- Bytes for which the width has a place each fit into it. -/
theorem bigEndian_lt_base_pow {n : Nat} {bytes : List UInt8} (h : bytes.length ≤ 8 * n) :
    bigEndian bytes < Word.base ^ n :=
  calc
    bigEndian bytes < 256 ^ bytes.length := bigEndian_lt bytes
    _ ≤ 256 ^ (8 * n) := Nat.pow_le_pow_right (by decide) h
    _ = Word.base ^ n := by rw [Word.base_eq, show 2 ^ 64 = 256 ^ 8 from rfl, pow_mul]

/-- The first bytes are the quotient of the number by the place of the last of them. -/
theorem bigEndian_take (bytes : List UInt8) (count : Nat) :
    bigEndian (bytes.take count) = bigEndian bytes / 256 ^ (bytes.length - count) := by
  have hSplit := bigEndian_append (bytes.take count) (bytes.drop count)
  have hLow := bigEndian_lt (bytes.drop count)
  rw [List.take_append_drop, List.length_drop] at hSplit
  rw [List.length_drop] at hLow
  rw [hSplit, Nat.add_mul_div_left _ _ (Nat.pow_pos (by decide)), Nat.div_eq_of_lt hLow,
    Nat.zero_add]

theorem Limbs.toNat_ofBytes (bytes : List UInt8) : toNat (ofBytes bytes) = bigEndian bytes := by
  have hDigits : ∀ d ∈ bytes.reverse.map UInt8.toUInt64, d.toNat < 2 ^ (8 : UInt64).toNat := by
    intro d hd
    obtain ⟨b, -, rfl⟩ := List.mem_map.mp hd
    exact b.toNat_lt
  have hWhole : 8 * (8 : UInt64).toNat = 64 := rfl
  have hValue := toNat_ofDigits (by decide) (by decide) hWhole _ hDigits
  rw [List.map_map] at hValue
  exact hValue

/-- The eight bytes of a word, the most significant byte first. -/
def Word.toBytes (w : UInt64) : List UInt8 :=
  ((toDigits 8 8 w).map UInt64.toUInt8).reverse

theorem Word.length_toBytes (w : UInt64) : (toBytes w).length = 8 := by
  rw [toBytes, List.length_reverse, List.length_map, toDigits, List.length_map, List.length_range]

theorem Word.bigEndian_toBytes (w : UInt64) : bigEndian (toBytes w) = w.toNat := by
  have hBytes : ((toDigits 8 8 w).map UInt64.toUInt8).map UInt8.toNat =
      (toDigits 8 8 w).map UInt64.toNat := by
    rw [List.map_map]
    apply List.map_congr_left
    intro digit hDigit
    have hByte : digit.toNat < 2 ^ 8 := lt_of_mem_toDigits (show 8 < 64 by decide) rfl hDigit
    rw [Function.comp_apply, UInt64.toNat_toUInt8, Nat.mod_eq_of_lt hByte]
  rw [toBytes, bigEndian, List.reverse_reverse, hBytes]
  exact ofDigits_toDigits (show 8 < 64 by decide) rfl w

/-- The limbs are written one after the other, the highest of them first. -/
theorem Limbs.toBytes_eq_flatMap (xs : List UInt64) :
    toBytes xs = xs.reverse.flatMap Word.toBytes :=
  List.reverse_flatMap

theorem Limbs.toBytes_cons (x : UInt64) (xs : List UInt64) :
    toBytes (x :: xs) = toBytes xs ++ Word.toBytes x := by
  rw [toBytes_eq_flatMap, List.reverse_cons, List.flatMap_append, List.flatMap_singleton,
    toBytes_eq_flatMap]

theorem Limbs.length_toBytes (xs : List UInt64) : (toBytes xs).length = 8 * xs.length := by
  induction xs with
  | nil => rfl
  | cons x xs ih =>
      rw [toBytes_cons, List.length_append, ih, Word.length_toBytes, List.length_cons]
      omega

theorem Limbs.bigEndian_toBytes (xs : List UInt64) : bigEndian (toBytes xs) = toNat xs := by
  induction xs with
  | nil => rfl
  | cons x xs ih =>
      rw [toBytes_cons, bigEndian_append, Word.bigEndian_toBytes, Word.length_toBytes, ih,
        toNat_cons]
      rfl

/-- What lies above the width is dropped. -/
theorem FixedNat.toNat_ofBytes_eq_mod (n : Nat) (bytes : List UInt8) :
    (ofBytes n bytes).toNat = bigEndian bytes % Word.base ^ n := by
  rw [ofBytes, toNat_ofLimbs, Limbs.toNat_ofBytes]

/-- Bytes that fit into the width are read as their number. -/
theorem FixedNat.toNat_ofBytes {n : Nat} {bytes : List UInt8}
    (h : bigEndian bytes < Word.base ^ n) : (ofBytes n bytes).toNat = bigEndian bytes := by
  rw [toNat_ofBytes_eq_mod, Nat.mod_eq_of_lt h]

theorem FixedNat.length_toBytes {n : Nat} (a : FixedNat n) : a.toBytes.length = 8 * n := by
  rw [toBytes, Limbs.length_toBytes, a.length_limbs]

theorem FixedNat.bigEndian_toBytes {n : Nat} (a : FixedNat n) : bigEndian a.toBytes = a.toNat :=
  Limbs.bigEndian_toBytes a.limbs

/-- What is written for an integer is read back as it. -/
theorem FixedNat.ofBytes_toBytes {n : Nat} (a : FixedNat n) : ofBytes n a.toBytes = a := by
  apply eq_of_toNat_eq
  rw [toNat_ofBytes_eq_mod, bigEndian_toBytes, Nat.mod_eq_of_lt a.toNat_lt]

end NybergRueppel
