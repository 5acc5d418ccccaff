/-
# The numbers of the words

The number of a word (`Word.value`) is its 32 bytes read with the most significant one first.
The word helpers of `src/execution/vm.rs` are what they are named after on these numbers:
`add` and `sub` modulo `2 ^ 256`, `lt`, and the bitwise operations.

`mul` and `div` are not: they read the two low limbs of a word the wrong way round
(`crossed`), and write them back like that.
-/
import Pacyte.VirtualMachine

/-! ## Bytes -/

theorem ofDigits_leBytes (width n : ℕ) :
    Nat.ofDigits 256 ((leBytes width n).map UInt8.toNat) = n % 256 ^ width := by
  induction width generalizing n with
  | zero => exact (Nat.mod_one n).symm
  | succ width ih =>
      have hbyte : (UInt8.ofNat n).toNat = n % 256 := UInt8.toNat_ofNat'
      rw [leBytes, List.map_cons, Nat.ofDigits_cons, ih, hbyte, pow_succ', Nat.mod_mul]

/-- A list of bytes is determined by its length and its number. -/
theorem beNat_injective {bytes bytes' : Bytes} (hlen : bytes.length = bytes'.length)
    (h : beNat bytes = beNat bytes') : bytes = bytes' := by
  have hlt : ∀ l : Bytes, ∀ d ∈ l.reverse.map UInt8.toNat, d < 256 := by
    intro l d hd
    obtain ⟨byte, -, rfl⟩ := List.mem_map.mp hd
    exact byte.toNat_lt
  have hmap : bytes.reverse.map UInt8.toNat = bytes'.reverse.map UInt8.toNat :=
    Nat.ofDigits_inj_of_len_eq (by decide) (by simpa using hlen) (hlt bytes) (hlt bytes') h
  have hrev : bytes.reverse = bytes'.reverse :=
    List.map_injective_iff.mpr (fun _ _ => UInt8.toNat_inj.mp) hmap
  exact List.reverse_injective hrev

/-- The bytes of a list of limbs, the most significant limb first. -/
theorem beNat_flatMap (limbs : List ℕ) (h : ∀ limb ∈ limbs, limb < 2 ^ 64) :
    beNat (limbs.flatMap (beBytes 8)) = Nat.ofDigits (2 ^ 64) limbs.reverse := by
  have hgroups : ((limbs.flatMap (beBytes 8)).reverse.map UInt8.toNat) =
      (limbs.reverse.map fun limb => (leBytes 8 limb).map UInt8.toNat).flatten := by
    rw [List.reverse_flatMap, ← List.flatMap_def, List.map_flatMap]
    refine List.flatMap_congr fun limb _ => ?_
    rw [Function.comp_apply, beBytes, List.reverse_reverse]
  have hlength : ∀ g ∈ limbs.reverse.map (fun limb => (leBytes 8 limb).map UInt8.toNat),
      g.length = 8 := by
    intro g hg
    obtain ⟨limb, -, rfl⟩ := List.mem_map.mp hg
    rw [List.length_map, length_leBytes]
  have hvalues : (limbs.reverse.map fun limb => (leBytes 8 limb).map UInt8.toNat).map
      (Nat.ofDigits 256) = limbs.reverse := by
    rw [List.map_map]
    refine (List.map_congr_left fun limb hlimb => ?_).trans (List.map_id _)
    rw [Function.comp_apply, ofDigits_leBytes]
    exact Nat.mod_eq_of_lt (h limb (List.mem_reverse.mp hlimb))
  rw [beNat, hgroups, Limbs.ofDigits_flatten _ hlength, hvalues]
  norm_num

namespace Word

/-! ## Values -/

/-- The number of a word. -/
def value (word : Word) : ℕ := beNat word.toList

theorem value_injective {a b : Word} (h : a.value = b.value) : a = b := by
  have hlist : a.toList = b.toList :=
    beNat_injective (by rw [Vector.length_toList, Vector.length_toList]) h
  exact Vector.toList_inj.mp hlist

/-- The digits of a word, the least significant one first. -/
def digits (word : Word) : List ℕ := word.toList.reverse.map UInt8.toNat

theorem digits_lt (word : Word) : ∀ d ∈ word.digits, d < 256 := by
  intro d hd
  obtain ⟨byte, -, rfl⟩ := List.mem_map.mp hd
  exact byte.toNat_lt

@[simp] theorem length_digits (word : Word) : word.digits.length = 32 := by
  rw [digits, List.length_map, List.length_reverse, Vector.length_toList]

theorem value_lt (word : Word) : word.value < 2 ^ 256 := by
  have hlt : word.value < 256 ^ word.digits.length :=
    Nat.ofDigits_lt_base_pow_length (by decide) word.digits_lt
  rw [length_digits] at hlt
  exact hlt

theorem toList_ofBytes {bytes : Bytes} (h : bytes.length = 32) :
    (ofBytes bytes).toList = bytes := by
  rw [ofBytes, Vector.toList_ofFn]
  refine List.ext_getElem (by rw [List.length_ofFn, h]) fun i h₁ h₂ => ?_
  rw [List.getElem_ofFn, List.getD_eq_getElem]

theorem value_ofBytes {bytes : Bytes} (h : bytes.length = 32) :
    (ofBytes bytes).value = beNat bytes := by
  rw [value, toList_ofBytes h]

@[simp] theorem value_zero : zero.value = 0 := rfl

@[simp] theorem value_one : one.value = 1 := rfl

/-! ## Limbs -/

/-- The limbs are the digits for the base `2 ^ 64`. -/
theorem ofDigits_toU256 (word : Word) :
    Nat.ofDigits (2 ^ 64) word.toU256.reverse = word.value := by
  have hbytes : word.toList = word.limbBytes 0 ++ word.limbBytes 8 ++ word.limbBytes 16 ++
      word.limbBytes 24 := by
    have hlen : word.toList.length = 32 := Vector.length_toList
    unfold limbBytes
    have h₀ := List.take_append_drop 8 word.toList
    have h₁ := List.take_append_drop 8 (word.toList.drop 8)
    have h₂ := List.take_append_drop 8 (word.toList.drop 16)
    have h₃ : (word.toList.drop 24).take 8 = word.toList.drop 24 :=
      List.take_of_length_le (by rw [List.length_drop, hlen])
    rw [List.drop_drop] at h₁ h₂
    rw [h₃, List.append_assoc, List.append_assoc, h₂, h₁, List.drop_zero, h₀]
  have hgroups : word.digits = [(word.limbBytes 24).reverse.map UInt8.toNat,
      (word.limbBytes 16).reverse.map UInt8.toNat, (word.limbBytes 8).reverse.map UInt8.toNat,
      (word.limbBytes 0).reverse.map UInt8.toNat].flatten := by
    rw [digits, hbytes]
    simp only [List.reverse_append, List.map_append, List.flatten_cons, List.flatten_nil,
      List.append_nil]
  have hlength : ∀ start, start ≤ 24 →
      ((word.limbBytes start).reverse.map UInt8.toNat).length = 8 := by
    intro start hstart
    rw [List.length_map, List.length_reverse, limbBytes, List.length_take, List.length_drop,
      Vector.length_toList]
    omega
  have hvalue : word.value = Nat.ofDigits 256 word.digits := rfl
  rw [hvalue, hgroups, Limbs.ofDigits_flatten (k := 8)]
  · rfl
  · intro g hg
    simp only [List.mem_cons, List.not_mem_nil, or_false] at hg
    rcases hg with rfl | rfl | rfl | rfl <;> exact hlength _ (by decide)

theorem toU256_lt (word : Word) : ∀ limb ∈ word.toU256, limb < 2 ^ 64 := by
  have hlt : ∀ start, beNat (word.limbBytes start) < 2 ^ 64 := by
    intro start
    have hdigits : ∀ d ∈ (word.limbBytes start).reverse.map UInt8.toNat, d < 256 := by
      intro d hd
      obtain ⟨byte, -, rfl⟩ := List.mem_map.mp hd
      exact byte.toNat_lt
    have hlen : ((word.limbBytes start).reverse.map UInt8.toNat).length ≤ 8 := by
      rw [List.length_map, List.length_reverse]
      exact List.length_take_le ..
    calc beNat (word.limbBytes start)
        < 256 ^ ((word.limbBytes start).reverse.map UInt8.toNat).length :=
          Nat.ofDigits_lt_base_pow_length (by decide) hdigits
      _ ≤ 256 ^ 8 := Nat.pow_le_pow_right (by decide) hlen
      _ = 2 ^ 64 := by norm_num
  intro limb hlimb
  simp only [toU256, List.mem_cons, List.not_mem_nil, or_false] at hlimb
  rcases hlimb with rfl | rfl | rfl | rfl <;> exact hlt _

theorem value_ofU256 {limbs : List ℕ} (hlen : limbs.length = 4)
    (h : ∀ limb ∈ limbs, limb < 2 ^ 64) :
    (ofU256 limbs).value = Nat.ofDigits (2 ^ 64) limbs.reverse := by
  have hlength : (limbs.flatMap (beBytes 8)).length = 32 := by
    have hbytes : ∀ limb, (beBytes 8 limb).length = 8 := by
      intro limb
      rw [beBytes, List.length_reverse, length_leBytes]
    rw [List.length_flatMap, List.map_congr_left fun limb _ => hbytes limb, List.map_const',
      List.sum_replicate, hlen]
    rfl
  rw [ofU256, value_ofBytes hlength, beNat_flatMap limbs h]

/-! ## Sums, differences and comparisons -/

/-- **`add` adds modulo `2 ^ 256`.** -/
theorem value_add (a b : Word) : (add a b).value = (a.value + b.value) % 2 ^ 256 := by
  have hlen : a.toU256.reverse.length = b.toU256.reverse.length := rfl
  rw [add, value_ofU256, List.reverse_reverse, Limbs.ofDigits_addCarry _ _ _ (by decide) hlen,
    ofDigits_toU256, ofDigits_toU256]
  · have hpow : (2 ^ 64) ^ a.toU256.reverse.length = 2 ^ 256 := by
      rw [← pow_mul]
      rfl
    rw [hpow, Nat.add_zero]
  · rw [List.length_reverse, Limbs.length_addCarry _ _ _ hlen]
    rfl
  · intro limb hlimb
    exact Limbs.addCarry_lt _ _ _ (by decide) limb (List.mem_reverse.mp hlimb)

/-- **`sub` subtracts modulo `2 ^ 256`.** -/
theorem value_sub (a b : Word) :
    (sub a b).value = (2 ^ 256 - b.value + a.value) % 2 ^ 256 := by
  have hlen : a.toU256.reverse.length = b.toU256.reverse.length := rfl
  have ha : ∀ limb ∈ a.toU256.reverse, limb < 2 ^ 64 :=
    fun limb h => a.toU256_lt limb (List.mem_reverse.mp h)
  have hb : ∀ limb ∈ b.toU256.reverse, limb < 2 ^ 64 :=
    fun limb h => b.toU256_lt limb (List.mem_reverse.mp h)
  have hvalue : (sub a b).value =
      Nat.ofDigits (2 ^ 64) (Limbs.subBorrow (2 ^ 64) a.toU256.reverse b.toU256.reverse 0) := by
    rw [sub, value_ofU256, List.reverse_reverse]
    · rw [List.length_reverse, Limbs.length_subBorrow _ _ _ hlen]
      rfl
    · intro limb hlimb
      exact Limbs.subBorrow_lt _ _ _ ha limb (List.mem_reverse.mp hlimb)
  obtain ⟨k, hk⟩ := Limbs.ofDigits_subBorrow _ _ 0 (Nat.zero_le _) hb hlen
  have hpow : (2 ^ 64) ^ a.toU256.reverse.length = 2 ^ 256 := by
    rw [← pow_mul]
    rfl
  rw [← hvalue, ofDigits_toU256, ofDigits_toU256, hpow, Nat.add_zero] at hk
  have hdiff : 2 ^ 256 - b.value + a.value + 2 ^ 256 * k = (sub a b).value + 2 ^ 256 := by
    have hlt := b.value_lt
    omega
  calc (sub a b).value = ((sub a b).value + 2 ^ 256) % 2 ^ 256 := by
        rw [Nat.add_mod_right, Nat.mod_eq_of_lt (value_lt _)]
    _ = (2 ^ 256 - b.value + a.value) % 2 ^ 256 := by
        rw [← hdiff, Nat.add_mul_mod_self_left]

/-- **`lt` compares the numbers.** -/
theorem lt_iff (a b : Word) : lt a b = true ↔ a.value < b.value := by
  have hdigits : ∀ word : Word, ∀ d ∈ word.toList.map UInt8.toNat, d < 256 := by
    intro word d hd
    obtain ⟨byte, -, rfl⟩ := List.mem_map.mp hd
    exact byte.toNat_lt
  rw [lt, Limbs.less_iff _ _ (hdigits a) (hdigits b) (by
    rw [List.length_map, List.length_map, Vector.length_toList, Vector.length_toList]),
    ← List.map_reverse, ← List.map_reverse]
  exact Iff.rfl

theorem gt_iff (a b : Word) : gt a b = true ↔ b.value < a.value := lt_iff b a

theorem isZero_iff (word : Word) : word.isZero = true ↔ word.value = 0 := by
  constructor
  · intro h
    have hzero : word = zero := by
      refine Vector.toList_inj.mp (List.ext_getElem ?_ fun i h₁ h₂ => ?_)
      · rw [Vector.length_toList, Vector.length_toList]
      · have hbyte := List.all_eq_true.mp h _ (List.getElem_mem h₁)
        rw [beq_iff_eq] at hbyte
        rw [hbyte, Vector.getElem_toList]
        exact (Vector.getElem_replicate _).symm
    rw [hzero, value_zero]
  · intro h
    rw [← value_zero] at h
    rw [value_injective h]
    decide

theorem value_ofBool (c : Bool) : (ofBool c).value = if c then 1 else 0 := by
  cases c with
  | true => exact value_one
  | false => exact value_zero

/-! ## Bits -/

/-- A bitwise operation on the bytes is the one on the numbers. -/
theorem value_zipWith {f : Bool → Bool → Bool} (hf : f false false = false)
    {g : UInt8 → UInt8 → UInt8} (hg : ∀ x y, (g x y).toNat = Nat.bitwise f x.toNat y.toNat)
    (a b : Word) : Word.value (Vector.zipWith g a b) = Nat.bitwise f a.value b.value := by
  have hdigits : digits (Vector.zipWith g a b) = List.zipWith (Nat.bitwise f) a.digits b.digits := by
    unfold digits
    rw [Vector.toList_zipWith, List.reverse_zipWith, List.map_zipWith, List.zipWith_map]
    · simp only [hg]
    · rw [Vector.length_toList, Vector.length_toList]
  have hvalue : ∀ word : Word, word.value = Nat.ofDigits (2 ^ 8) word.digits := fun word => rfl
  rw [hvalue, hdigits, Limbs.ofDigits_zipWith hf _ _ a.digits_lt b.digits_lt, ← hvalue, ← hvalue]
  rw [length_digits, length_digits]

theorem value_and (a b : Word) :
    Word.value (Vector.zipWith (· &&& ·) a b) = a.value &&& b.value :=
  value_zipWith rfl (fun x y => UInt8.toNat_and x y) a b

theorem value_or (a b : Word) :
    Word.value (Vector.zipWith (· ||| ·) a b) = a.value ||| b.value :=
  value_zipWith rfl (fun x y => UInt8.toNat_or x y) a b

theorem value_xor (a b : Word) :
    Word.value (Vector.zipWith (· ^^^ ·) a b) = a.value ^^^ b.value :=
  value_zipWith rfl (fun x y => UInt8.toNat_xor x y) a b

theorem value_not (a : Word) : Word.value (Vector.map (~~~ ·) a) = 2 ^ 256 - 1 - a.value := by
  have hbyte : ∀ x : UInt8, (~~~ x).toNat = 256 - 1 - x.toNat := fun x => UInt8.toNat_not x
  have hdigits : digits (Vector.map (~~~ ·) a) = a.digits.map fun d => 256 - 1 - d := by
    unfold digits
    rw [Vector.toList_map, ← List.map_reverse, List.map_map, List.map_map]
    refine List.map_congr_left fun x _ => ?_
    exact hbyte x
  have hsum := Limbs.ofDigits_complement a.digits a.digits_lt
  rw [← hdigits, length_digits] at hsum
  have hvalue : ∀ word : Word, Nat.ofDigits 256 word.digits = word.value := fun word => rfl
  rw [hvalue, hvalue] at hsum
  have hpow : (256 : ℕ) ^ 32 = 2 ^ 256 := by norm_num
  omega

/-! ## The two low limbs -/

/-- The two low limbs of a number, the wrong way round. -/
def crossed (n : ℕ) : ℕ := n / 2 ^ 64 % 2 ^ 64 + 2 ^ 64 * (n % 2 ^ 64)

theorem crossed_zero : crossed 0 = 0 := rfl

theorem crossed_lt (n : ℕ) : crossed n < 2 ^ 128 := by
  unfold crossed
  have h₁ := Nat.mod_lt (n / 2 ^ 64) (show 0 < 2 ^ 64 by decide)
  have h₂ := Nat.mod_lt n (show 0 < 2 ^ 64 by decide)
  omega

/-- **The factors of `mul` and the operands of `div`** are the crossed low limbs. -/
theorem lowPart_eq (word : Word) : word.lowPart = crossed word.value := by
  have hvalue := word.ofDigits_toU256
  have hlt := word.toU256_lt
  unfold lowPart crossed
  rw [← hvalue]
  simp only [toU256, List.reverse_cons, List.reverse_nil, List.nil_append, List.cons_append,
    Nat.ofDigits_cons, Nat.ofDigits_nil, List.getD_cons_succ, List.getD_cons_zero]
  have h₂ : beNat (word.limbBytes 16) < 2 ^ 64 := hlt _ (by simp [toU256])
  have h₃ : beNat (word.limbBytes 24) < 2 ^ 64 := hlt _ (by simp [toU256])
  rw [Nat.or_comm, ← Nat.shiftLeft_add_eq_or_of_lt h₂, Nat.shiftLeft_eq]
  omega

/-- What `mul` and `div` write is crossed as well. -/
theorem value_ofLowPart {n : ℕ} (hn : n < 2 ^ 128) : (ofLowPart n).value = crossed n := by
  rw [ofLowPart, value_ofU256 rfl]
  · simp only [List.reverse_cons, List.reverse_nil, List.nil_append, List.cons_append,
      Nat.ofDigits_cons, Nat.ofDigits_nil, crossed]
    omega
  · intro limb hlimb
    simp only [List.mem_cons, List.not_mem_nil, or_false] at hlimb
    rcases hlimb with rfl | rfl | rfl | rfl <;> omega

end Word
