/-
# Arithmetic on words

The loops of `add` and `sub` compute with 128-bit numbers that hold a limb and a carry, and none of
these computations overflows (`addLoop_eq`, `subLoop_eq`), so that `add`, `sub`, `lt` and `gt` are
those of 256-bit numbers (`Word.arithmetic`).

`mul` and `div` read the two low limbs of a word the wrong way round.  A product is right only if
nothing is left of it, a quotient exactly if two limbs are the quotient both ways round
(`Word.product_quotient_iff`).
-/
import Pacyte.WordValues

/-! ## Checked 128-bit numbers -/

/-- Overflow-checked addition of `u128`. -/
def addU128 (a b : ℕ) : Option ℕ := if a + b < 2 ^ 128 then some (a + b) else none

/-- The value fits into an `i128`. -/
def fitI128 (n : ℤ) : Option ℤ := if -2 ^ 127 ≤ n ∧ n < 2 ^ 127 then some n else none

/-- The cast of an `i128` to `u64`. -/
def asU64 (n : ℤ) : ℕ := (n % 2 ^ 64).toNat

namespace Word

/-- The loop of `add`, with its intermediate numbers, from the last limb to the first. -/
def addLoop : List ℕ → List ℕ → ℕ → Option (List ℕ)
  | a :: as, b :: bs, carry => do
    let sum ← addU128 a b
    let sum ← addU128 sum carry
    let rest ← addLoop as bs (sum / 2 ^ 64 % 2 ^ 64)
    return sum % 2 ^ 64 :: rest
  | _, _, _ => some []

/-- The loop of `sub`, with its intermediate numbers, from the last limb to the first. -/
def subLoop : List ℕ → List ℕ → ℕ → Option (List ℕ)
  | a :: as, b :: bs, borrow => do
    let aWithBorrow ← fitI128 (a - borrow)
    if (b : ℤ) ≤ aWithBorrow then
      let digit ← fitI128 (aWithBorrow - b)
      let rest ← subLoop as bs 0
      return asU64 digit :: rest
    else
      let sum ← fitI128 (2 ^ 64 + aWithBorrow)
      let digit ← fitI128 (sum - b)
      let rest ← subLoop as bs 1
      return asU64 digit :: rest
  | _, _, _ => some []

/-- `add` with overflow checks. -/
def addChecked (a b : Word) : Option Word :=
  (addLoop a.toU256.reverse b.toU256.reverse 0).map fun result => ofU256 result.reverse

/-- `sub` with overflow checks. -/
def subChecked (a b : Word) : Option Word :=
  (subLoop a.toU256.reverse b.toU256.reverse 0).map fun result => ofU256 result.reverse

/-! ## No overflow -/

theorem fitI128_of_small {n : ℤ} (hlow : -2 ^ 65 ≤ n) (hhigh : n ≤ 2 ^ 65) :
    fitI128 n = some n := if_pos ⟨by omega, by omega⟩

/-- A sum of two limbs and a carry fits. -/
theorem addLoop_eq (as bs : List ℕ) (carry : ℕ) (has : ∀ a ∈ as, a < 2 ^ 64)
    (hbs : ∀ b ∈ bs, b < 2 ^ 64) (hcarry : carry < 2 ^ 64) :
    addLoop as bs carry = some (Limbs.addCarry (2 ^ 64) as bs carry) := by
  induction as generalizing bs carry with
  | nil => rfl
  | cons a as ih =>
      cases bs with
      | nil => rfl
      | cons b bs =>
          have ha := has a List.mem_cons_self
          have hb := hbs b List.mem_cons_self
          have hfirst : addU128 a b = some (a + b) := if_pos (by omega)
          have hsecond : addU128 (a + b) carry = some (a + b + carry) := if_pos (by omega)
          have hnext : (a + b + carry) / 2 ^ 64 < 2 ^ 64 := by omega
          have hrest := ih bs ((a + b + carry) / 2 ^ 64)
            (fun x hx => has x (List.mem_cons_of_mem _ hx))
            (fun x hx => hbs x (List.mem_cons_of_mem _ hx)) hnext
          rw [addLoop, hfirst]
          dsimp only [Option.bind_eq_bind, Option.bind_some]
          rw [hsecond]
          dsimp only [Option.bind_some]
          rw [Nat.mod_eq_of_lt hnext, hrest, Limbs.addCarry]
          rfl

/-- A difference of two limbs and a borrow fits. -/
theorem subLoop_eq (as bs : List ℕ) (borrow : ℕ) (has : ∀ a ∈ as, a < 2 ^ 64)
    (hbs : ∀ b ∈ bs, b < 2 ^ 64) (hborrow : borrow ≤ 1) :
    subLoop as bs borrow = some (Limbs.subBorrow (2 ^ 64) as bs borrow) := by
  induction as generalizing bs borrow with
  | nil => rfl
  | cons a as ih =>
      cases bs with
      | nil => rfl
      | cons b bs =>
          have ha := has a List.mem_cons_self
          have hb := hbs b List.mem_cons_self
          have has' : ∀ x ∈ as, x < 2 ^ 64 := fun x hx => has x (List.mem_cons_of_mem _ hx)
          have hbs' : ∀ x ∈ bs, x < 2 ^ 64 := fun x hx => hbs x (List.mem_cons_of_mem _ hx)
          have hfirst : fitI128 ((a : ℤ) - borrow) = some ((a : ℤ) - borrow) :=
            fitI128_of_small (by omega) (by omega)
          rw [subLoop, hfirst]
          dsimp only [Option.bind_eq_bind, Option.bind_some]
          rw [Limbs.subBorrow]
          by_cases hle : b + borrow ≤ a
          · have hdigit : fitI128 ((a : ℤ) - borrow - b) = some ((a : ℤ) - borrow - b) :=
              fitI128_of_small (by omega) (by omega)
            have hcast : asU64 ((a : ℤ) - borrow - b) = a - borrow - b := by
              unfold asU64
              omega
            rw [if_pos (by omega), if_pos hle, hdigit]
            dsimp only [Option.bind_some]
            rw [ih bs 0 has' hbs' (Nat.zero_le _), hcast]
            rfl
          · have hsum : fitI128 (2 ^ 64 + ((a : ℤ) - borrow)) = some (2 ^ 64 + ((a : ℤ) - borrow)) :=
              fitI128_of_small (by omega) (by omega)
            have hdigit : fitI128 (2 ^ 64 + ((a : ℤ) - borrow) - b)
                = some (2 ^ 64 + ((a : ℤ) - borrow) - b) :=
              fitI128_of_small (by omega) (by omega)
            have hcast : asU64 (2 ^ 64 + ((a : ℤ) - borrow) - b) = 2 ^ 64 + a - borrow - b := by
              unfold asU64
              omega
            rw [if_neg (by omega), if_neg hle, hsum]
            dsimp only [Option.bind_some]
            rw [hdigit]
            dsimp only [Option.bind_some]
            rw [ih bs 1 has' hbs' (Nat.le_refl _), hcast]
            rfl

theorem reverse_toU256_lt (word : Word) : ∀ limb ∈ word.toU256.reverse, limb < 2 ^ 64 :=
  fun limb h => word.toU256_lt limb (List.mem_reverse.mp h)

theorem addChecked_eq (a b : Word) : addChecked a b = some (add a b) := by
  rw [addChecked, addLoop_eq _ _ _ a.reverse_toU256_lt b.reverse_toU256_lt (by decide)]
  rfl

theorem subChecked_eq (a b : Word) : subChecked a b = some (sub a b) := by
  rw [subChecked, subLoop_eq _ _ _ a.reverse_toU256_lt b.reverse_toU256_lt (Nat.zero_le _)]
  rfl

/-! ## Words and limbs -/

theorem ofU256_toU256 (word : Word) : ofU256 word.toU256 = word := by
  apply value_injective
  rw [value_ofU256 rfl word.toU256_lt, ofDigits_toU256]

theorem toU256_ofU256 {limbs : List ℕ} (hlen : limbs.length = 4)
    (h : ∀ limb ∈ limbs, limb < 2 ^ 64) : (ofU256 limbs).toU256 = limbs := by
  apply List.reverse_injective
  apply Nat.ofDigits_inj_of_len_eq (by decide : 1 < 2 ^ 64)
  · rw [List.length_reverse, List.length_reverse, hlen]
    rfl
  · exact (ofU256 limbs).reverse_toU256_lt
  · exact fun limb hlimb => h limb (List.mem_reverse.mp hlimb)
  · rw [ofDigits_toU256, value_ofU256 hlen h]

/-- **`add`, `sub`, `lt` and `gt` are those of 256-bit numbers.**  No intermediate 128-bit number
overflows, and words and limbs are translated into each other without a loss. -/
theorem arithmetic (a b : Word) :
    (addChecked a b = some (add a b) ∧ (add a b).value = (a.value + b.value) % 2 ^ 256) ∧
      (subChecked a b = some (sub a b) ∧
        ((sub a b).value : ℤ) = ((a.value : ℤ) - b.value) % 2 ^ 256) ∧
      (lt a b = true ↔ a.value < b.value) ∧ (gt a b = true ↔ a.value > b.value) ∧
      ofU256 a.toU256 = a ∧
      ∀ limbs : List ℕ, limbs.length = 4 → (∀ limb ∈ limbs, limb < 2 ^ 64) →
        (ofU256 limbs).toU256 = limbs := by
  refine ⟨⟨addChecked_eq a b, value_add a b⟩, ⟨subChecked_eq a b, ?_⟩, lt_iff a b, gt_iff a b,
    ofU256_toU256 a, fun _ hlen h => toU256_ofU256 hlen h⟩
  have hsub := value_sub a b
  have hb := b.value_lt
  omega

/-- A carry through all limbs, and the limbs it leaves. -/
theorem arithmetic_carry :
    (add (ofBytes (List.replicate 32 255)) one).value = 0 ∧
      (ofU256 [0, 0, 1, 2 ^ 64 - 1]).toU256 = [0, 0, 1, 2 ^ 64 - 1] := by
  obtain ⟨⟨-, hadd⟩, -, -, -, -, hlimbs⟩ := arithmetic (ofBytes (List.replicate 32 255)) one
  refine ⟨?_, hlimbs [0, 0, 1, 2 ^ 64 - 1] rfl (by decide)⟩
  rw [hadd, value_ofBytes rfl]
  decide

/-! ## Products and quotients -/

/-- The two low limbs of a number, and what is above them. -/
theorem exists_limbs (n : ℕ) : ∃ n₀ n₁ n', n = n₀ + 2 ^ 64 * (n₁ + 2 ^ 64 * n') ∧
    n₀ < 2 ^ 64 ∧ n₁ < 2 ^ 64 :=
  ⟨n % 2 ^ 64, n / 2 ^ 64 % 2 ^ 64, n / 2 ^ 64 / 2 ^ 64, by omega, by omega, by omega⟩

/-- The limbs of a number that has two of them. -/
theorem exists_two_limbs {n : ℕ} (h : n < 2 ^ 128) : ∃ n₀ n₁, n = n₀ + 2 ^ 64 * n₁ ∧
    n₀ < 2 ^ 64 ∧ n₁ < 2 ^ 64 :=
  ⟨n % 2 ^ 64, n / 2 ^ 64, by omega, by omega, by omega⟩

theorem crossed_limbs {n₀ n₁ : ℕ} (n' : ℕ) (h₀ : n₀ < 2 ^ 64) (h₁ : n₁ < 2 ^ 64) :
    crossed (n₀ + 2 ^ 64 * (n₁ + 2 ^ 64 * n')) = n₁ + 2 ^ 64 * n₀ := by
  unfold crossed
  omega

theorem crossed_two_limbs {n₀ n₁ : ℕ} (h₀ : n₀ < 2 ^ 64) (h₁ : n₁ < 2 ^ 64) :
    crossed (n₀ + 2 ^ 64 * n₁) = n₁ + 2 ^ 64 * n₀ := crossed_limbs 0 h₀ h₁

/-- Only the two low limbs are crossed. -/
theorem crossed_eq_zero_iff (n : ℕ) : crossed n = 0 ↔ 2 ^ 128 ∣ n := by
  obtain ⟨n₀, n₁, n', rfl, h₀, h₁⟩ := exists_limbs n
  rw [crossed_limbs n' h₀ h₁]
  omega

/-- Crossing twice. -/
theorem crossed_crossed {n : ℕ} (h : n < 2 ^ 128) : crossed (crossed n) = n := by
  obtain ⟨n₀, n₁, rfl, h₀, h₁⟩ := exists_two_limbs h
  rw [crossed_two_limbs h₀ h₁, crossed_two_limbs h₁ h₀]

/-- `mul` returns the product of the numbers, modulo `2 ^ 256`. -/
def MulRight (a b : Word) : Prop :=
  ∃ w : Word, w.value = a.value * b.value % 2 ^ 256 ∧
    ∀ (ε σ : Type) (s : σ), (mul a b : Exec ε σ Word) s = (.ok w, s)

/-- `div` returns the quotient of the numbers; here a quotient by zero is zero. -/
def DivRight (a b : Word) : Prop := (div a b).value = a.value / b.value

/-- `mul` overflows exactly if the product of the crossed low limbs does not fit. -/
theorem mul_run {ε σ : Type} (a b : Word) (s : σ) :
    (mul a b : Exec ε σ Word) s =
      if crossed a.value * crossed b.value < 2 ^ 128 then
        (.ok (ofLowPart (crossed a.value * crossed b.value)), s)
      else (.panic, s) := by
  unfold mul
  rw [lowPart_eq, lowPart_eq]
  split_ifs <;> rfl

/-- The product of crossed numbers, crossed back, is the product of the numbers only if nothing is
left of it. -/
theorem product_eq_zero {m n : ℕ} (hfits : crossed m * crossed n < 2 ^ 128)
    (h : crossed (crossed m * crossed n) = m * n % 2 ^ 256) : crossed m * crossed n = 0 := by
  obtain ⟨m₀, m₁, m', hm, hm₀, hm₁⟩ := exists_limbs m
  obtain ⟨n₀, n₁, n', hn, hn₀, hn₁⟩ := exists_limbs n
  have hcm : crossed m = m₁ + 2 ^ 64 * m₀ := by rw [hm, crossed_limbs m' hm₀ hm₁]
  have hcn : crossed n = n₁ + 2 ^ 64 * n₀ := by rw [hn, crossed_limbs n' hn₀ hn₁]
  have hprod : crossed m * crossed n =
      m₁ * n₁ + 2 ^ 64 * (m₀ * n₁ + m₁ * n₀) + 2 ^ 128 * (m₀ * n₀) := by
    rw [hcm, hcn]
    ring
  have hmn : m * n = m₀ * n₀ + 2 ^ 64 * (m₀ * n₁ + m₁ * n₀) +
      2 ^ 128 * (m₁ * n₁ + m₀ * n' + m' * n₀ + 2 ^ 64 * (m₁ * n' + m' * n₁) +
        2 ^ 128 * (m' * n')) := by
    rw [hm, hn]
    ring
  -- the lowest limb of the product is zero, and then so is everything above it
  have hlow : m₀ * n₀ = 0 := by omega
  rw [hlow, Nat.mul_zero, Nat.add_zero] at hprod
  rw [hlow, Nat.zero_add] at hmn
  have hcross : m₀ * n₁ + m₁ * n₀ = 0 := by
    rw [hprod] at h hfits
    rw [hmn] at h
    unfold crossed at h
    omega
  rw [hcross, Nat.mul_zero, Nat.add_zero] at hprod
  rw [hcross, Nat.mul_zero, Nat.zero_add] at hmn
  rw [hprod, hmn] at h
  rw [hprod] at hfits ⊢
  unfold crossed at h
  omega

/-- **When `mul` is right**: if both the product of the crossed low limbs and the product of the
numbers, modulo `2 ^ 256`, are zero. -/
theorem mul_right_iff (a b : Word) :
    MulRight a b ↔
      (2 ^ 128 ∣ a.value ∨ 2 ^ 128 ∣ b.value) ∧ 2 ^ 256 ∣ a.value * b.value := by
  rw [← crossed_eq_zero_iff, ← crossed_eq_zero_iff, ← Nat.mul_eq_zero]
  constructor
  · rintro ⟨w, hw, hrun⟩
    have hmul := hrun Empty Unit ()
    rw [mul_run] at hmul
    split_ifs at hmul with hfits
    · obtain rfl := Outcome.ok.inj (congrArg Prod.fst hmul)
      rw [value_ofLowPart hfits] at hw
      have hzero := product_eq_zero hfits hw
      rw [hzero, crossed_zero] at hw
      exact ⟨hzero, Nat.dvd_of_mod_eq_zero hw.symm⟩
    · cases congrArg Prod.fst hmul
  · rintro ⟨hzero, hdvd⟩
    refine ⟨ofLowPart 0, ?_, fun ε σ s => ?_⟩
    · rw [value_ofLowPart (by decide), crossed_zero, Nat.mod_eq_zero_of_dvd hdvd]
    · rw [mul_run, hzero, if_pos (by decide)]

/-- **When `div` is right**: for zero; for a divisor whose low half is zero, if the quotient is
zero; and otherwise if the division of the crossed low halves is the crossed quotient. -/
theorem div_right_iff (a b : Word) :
    DivRight a b ↔ b.value = 0 ∨ (b.value ≠ 0 ∧ 2 ^ 128 ∣ b.value ∧ a.value < b.value) ∨
      (¬ 2 ^ 128 ∣ b.value ∧ a.value / b.value < 2 ^ 128 ∧
        crossed a.value / crossed b.value = crossed (a.value / b.value)) := by
  unfold DivRight div
  by_cases hzero : b.value = 0
  · rw [if_pos ((isZero_iff b).mpr hzero), value_zero, hzero, Nat.div_zero]
    exact iff_of_true rfl (Or.inl rfl)
  · rw [if_neg (mt (isZero_iff b).mp hzero), lowPart_eq, lowPart_eq]
    by_cases hlow : crossed b.value = 0
    · have hdvd := (crossed_eq_zero_iff b.value).mp hlow
      rw [if_pos hlow, value_zero, eq_comm, Nat.div_eq_zero_iff]
      constructor
      · intro h
        exact Or.inr (Or.inl ⟨hzero, hdvd, h.resolve_left hzero⟩)
      · rintro (h | ⟨-, -, h⟩ | ⟨h, -⟩)
        · exact absurd h hzero
        · exact Or.inr h
        · exact absurd hdvd h
    · have hndvd : ¬ 2 ^ 128 ∣ b.value := mt (crossed_eq_zero_iff b.value).mpr hlow
      have hlt : crossed a.value / crossed b.value < 2 ^ 128 :=
        Nat.lt_of_le_of_lt (Nat.div_le_self _ _) (crossed_lt _)
      rw [if_neg hlow, value_ofLowPart hlt]
      constructor
      · intro h
        refine Or.inr (Or.inr ⟨hndvd, ?_, ?_⟩)
        · rw [← h]
          exact crossed_lt _
        · rw [← h, crossed_crossed hlt]
      · rintro (h | ⟨-, h, -⟩ | ⟨-, hsmall, h⟩)
        · exact absurd h hzero
        · exact absurd h hndvd
        · rw [h, crossed_crossed hsmall]

/-- A quotient with a limb that meets a zero limb of the divisor would leave a remainder beyond the
divisor: here `S` is the product of the two other limbs. -/
theorem no_crossed_quotient {m₀ m₁ S r r' bound : ℕ} (hm₁ : m₁ < 2 ^ 64) (hbound : bound < 2 ^ 64)
    (hle : bound ≤ S) (hz : 2 ^ 64 * S + r = m₀ + 2 ^ 64 * m₁)
    (hq : 2 ^ 64 * S + r' = m₁ + 2 ^ 64 * m₀) (hr' : r' < bound) : False := by
  have hS : S = m₀ := by omega
  omega

/-- Among numbers of two limbs the division of crossed numbers is the crossed quotient only if
both quotients are zero. -/
theorem crossed_div_iff {m n : ℕ} (hm : m < 2 ^ 128) (hn : n < 2 ^ 128) (hpos : 0 < n) :
    crossed m / crossed n = crossed (m / n) ↔ m < n ∧ crossed m < crossed n := by
  have hzlt : m / n < 2 ^ 128 := Nat.lt_of_le_of_lt (Nat.div_le_self _ _) hm
  have hz := Nat.div_add_mod m n
  have hr := Nat.mod_lt m hpos
  have hq := Nat.div_add_mod (crossed m) (crossed n)
  obtain ⟨m₀, m₁, rfl, hm₀, hm₁⟩ := exists_two_limbs hm
  obtain ⟨n₀, n₁, rfl, hn₀, hn₁⟩ := exists_two_limbs hn
  have hcpos : 0 < crossed (n₀ + 2 ^ 64 * n₁) := by
    rw [crossed_two_limbs hn₀ hn₁]
    omega
  have hr' := Nat.mod_lt (crossed (m₀ + 2 ^ 64 * m₁)) hcpos
  constructor
  · intro h
    have hzero : (m₀ + 2 ^ 64 * m₁) / (n₀ + 2 ^ 64 * n₁) = 0 := by
      rw [h] at hq
      generalize (m₀ + 2 ^ 64 * m₁) / (n₀ + 2 ^ 64 * n₁) = z at h hz hq hzlt ⊢
      generalize (m₀ + 2 ^ 64 * m₁) % (n₀ + 2 ^ 64 * n₁) = r at hz hr
      generalize crossed (m₀ + 2 ^ 64 * m₁) % crossed (n₀ + 2 ^ 64 * n₁) = r' at hq hr'
      obtain ⟨z₀, z₁, rfl, hz₀, hz₁⟩ := exists_two_limbs hzlt
      rw [crossed_two_limbs hm₀ hm₁, crossed_two_limbs hn₀ hn₁, crossed_two_limbs hz₀ hz₁] at hq
      rw [crossed_two_limbs hn₀ hn₁] at hr'
      have hprod : (n₀ + 2 ^ 64 * n₁) * (z₀ + 2 ^ 64 * z₁)
          = n₀ * z₀ + 2 ^ 64 * (n₀ * z₁ + n₁ * z₀) + 2 ^ 128 * (n₁ * z₁) := by ring
      have hprod' : (n₁ + 2 ^ 64 * n₀) * (z₁ + 2 ^ 64 * z₀)
          = n₁ * z₁ + 2 ^ 64 * (n₀ * z₁ + n₁ * z₀) + 2 ^ 128 * (n₀ * z₀) := by ring
      rw [hprod] at hz
      rw [hprod'] at hq
      have h₁₁ : n₁ * z₁ = 0 := by omega
      have h₀₀ : n₀ * z₀ = 0 := by omega
      rw [h₁₁, h₀₀, Nat.mul_zero, Nat.add_zero, Nat.zero_add] at hz hq
      -- a limb of the quotient that is not zero meets one of the divisor that is zero
      rcases Nat.mul_eq_zero.mp h₀₀ with hzero | hzero
      · subst hzero
        have hn₁pos : 0 < n₁ := by omega
        have hz₁zero : z₁ = 0 := (Nat.mul_eq_zero.mp h₁₁).resolve_left (Nat.ne_of_gt hn₁pos)
        subst hz₁zero
        rcases Nat.eq_zero_or_pos z₀ with hz₀zero | hz₀pos
        · rw [hz₀zero, Nat.mul_zero]
        · have hle := Nat.le_mul_of_pos_right n₁ hz₀pos
          rw [Nat.zero_mul, Nat.zero_add] at hz hq
          exact (no_crossed_quotient hm₁ hn₁ hle hz hq (by omega)).elim
      · subst hzero
        rcases Nat.mul_eq_zero.mp h₁₁ with hzero | hzero
        · subst hzero
          rcases Nat.eq_zero_or_pos z₁ with hz₁zero | hz₁pos
          · rw [hz₁zero, Nat.mul_zero]
          · have hle := Nat.le_mul_of_pos_right n₀ hz₁pos
            rw [Nat.zero_mul, Nat.add_zero] at hz hq
            exact (no_crossed_quotient hm₀ hn₀ hle hq hz (by omega)).elim
        · rw [hzero, Nat.mul_zero]
    rw [hzero, crossed_zero] at h
    exact ⟨(Nat.div_eq_zero_iff.mp hzero).resolve_left (by omega),
      (Nat.div_eq_zero_iff.mp h).resolve_left (by omega)⟩
  · rintro ⟨hlt, hclt⟩
    rw [Nat.div_eq_of_lt hlt, Nat.div_eq_of_lt hclt, crossed_zero]

/-- `n` multiples of the divisor fit into the dividend, and no more. -/
def Fits (dividend divisor n : ℕ) : Prop :=
  n * divisor ≤ dividend ∧ dividend < n * divisor + divisor

instance (dividend divisor n : ℕ) : Decidable (Fits dividend divisor n) :=
  inferInstanceAs (Decidable (_ ∧ _))

theorem div_eq_iff_fits {a b n : ℕ} (hb : 0 < b) : a / b = n ↔ Fits a b n := by
  rw [Nat.div_eq_iff hb, Fits]
  omega

/-- Two limbs that are a quotient, and crossed are the quotient of the crossed numbers. -/
theorem exists_fits_iff {a b : ℕ} (hb : 0 < b) (hcb : 0 < crossed b) :
    (a / b < 2 ^ 128 ∧ crossed a / crossed b = crossed (a / b)) ↔
      ∃ q₀ q₁, q₀ < 2 ^ 64 ∧ q₁ < 2 ^ 64 ∧ Fits a b (q₀ + 2 ^ 64 * q₁) ∧
        Fits (crossed a) (crossed b) (q₁ + 2 ^ 64 * q₀) := by
  constructor
  · rintro ⟨hlt, heq⟩
    obtain ⟨q₀, q₁, hq, hq₀, hq₁⟩ := exists_two_limbs hlt
    rw [hq, crossed_two_limbs hq₀ hq₁] at heq
    exact ⟨q₀, q₁, hq₀, hq₁, (div_eq_iff_fits hb).mp hq, (div_eq_iff_fits hcb).mp heq⟩
  · rintro ⟨q₀, q₁, hq₀, hq₁, hfits, hfits'⟩
    rw [(div_eq_iff_fits hb).mpr hfits, (div_eq_iff_fits hcb).mpr hfits',
      crossed_two_limbs hq₀ hq₁]
    exact ⟨by omega, rfl⟩

/-- **When `div` is right**, by the limbs of the quotient. -/
theorem div_right_iff_fits (a b : Word) :
    DivRight a b ↔ b.value = 0 ∨ (b.value ≠ 0 ∧ 2 ^ 128 ∣ b.value ∧ a.value < b.value) ∨
      (¬ 2 ^ 128 ∣ b.value ∧ ∃ q₀ q₁, q₀ < 2 ^ 64 ∧ q₁ < 2 ^ 64 ∧
        Fits a.value b.value (q₀ + 2 ^ 64 * q₁) ∧
        Fits (crossed a.value) (crossed b.value) (q₁ + 2 ^ 64 * q₀)) := by
  rw [div_right_iff]
  refine or_congr_right (or_congr_right (and_congr_right fun hndvd => ?_))
  have hpos : 0 < b.value := Nat.pos_of_ne_zero fun h => hndvd (h ▸ Nat.dvd_zero _)
  have hcpos : 0 < crossed b.value :=
    Nat.pos_of_ne_zero (mt (crossed_eq_zero_iff b.value).mp hndvd)
  exact exists_fits_iff hpos hcpos

/-- **When `mul` and `div` are right**.  A product is right if one factor has a zero low half and
the product of the numbers is zero modulo `2 ^ 256`.  A quotient is right for the divisor zero; for
another divisor with a zero low half if the dividend is less; and for every other divisor if some
two limbs are the quotient and, crossed, the quotient of the crossed low halves.  For numbers of two
limbs that is if both quotients are zero. -/
theorem product_quotient_iff (a b : Word) :
    (MulRight a b ↔
      (2 ^ 128 ∣ a.value ∨ 2 ^ 128 ∣ b.value) ∧ 2 ^ 256 ∣ a.value * b.value) ∧
    (DivRight a b ↔ b.value = 0 ∨ (b.value ≠ 0 ∧ 2 ^ 128 ∣ b.value ∧ a.value < b.value) ∨
      (¬ 2 ^ 128 ∣ b.value ∧ ∃ q₀ q₁, q₀ < 2 ^ 64 ∧ q₁ < 2 ^ 64 ∧
        Fits a.value b.value (q₀ + 2 ^ 64 * q₁) ∧
        Fits (crossed a.value) (crossed b.value) (q₁ + 2 ^ 64 * q₀))) ∧
    (a.value < 2 ^ 128 → 0 < b.value → b.value < 2 ^ 128 →
      (DivRight a b ↔ a.value < b.value ∧ crossed a.value < crossed b.value)) := by
  refine ⟨mul_right_iff a b, div_right_iff_fits a b, fun ha hpos hb => ?_⟩
  · have hndvd : ¬ 2 ^ 128 ∣ b.value := fun h => by
      have := Nat.le_of_dvd hpos h
      omega
    have hlt : a.value / b.value < 2 ^ 128 := Nat.lt_of_le_of_lt (Nat.div_le_self _ _) ha
    rw [div_right_iff, ← crossed_div_iff ha hb hpos]
    constructor
    · rintro (h | ⟨-, h, -⟩ | ⟨-, -, h⟩)
      · omega
      · exact absurd h hndvd
      · exact h
    · exact fun h => Or.inr (Or.inr ⟨hndvd, hlt, h⟩)

/-- Three divided by five is right: so is it with the limbs crossed. -/
theorem quotient_three_five : DivRight (ofU64 3) (ofU64 5) := by
  have hthree : (ofU64 3).value = 3 := rfl
  have hfive : (ofU64 5).value = 5 := rfl
  obtain ⟨-, -, hsmall⟩ := product_quotient_iff (ofU64 3) (ofU64 5)
  rw [hthree, hfive] at hsmall
  exact (hsmall (by decide) (by decide) (by decide)).mpr (by decide)

/-- The words of the test: of five and three neither the product nor the quotient is right. -/
theorem product_quotient_crossed :
    (ofU64 5).value = 5 ∧ (ofU64 3).value = 3 ∧ ¬ MulRight (ofU64 5) (ofU64 3) ∧
      (mul (ofU64 5) (ofU64 3) : Exec Empty Unit Word) () = (.panic, ()) ∧
      ¬ DivRight (ofU64 5) (ofU64 3) ∧ (div (ofU64 5) (ofU64 3)).value = 2 ^ 64 := by
  have hfive : (ofU64 5).value = 5 := rfl
  have hthree : (ofU64 3).value = 3 := rfl
  refine ⟨hfive, hthree, ?_, ?_, ?_, ?_⟩
  · rw [mul_right_iff, hfive, hthree]
    decide
  · rw [mul_run, hfive, hthree]
    rfl
  · unfold DivRight
    decide
  · decide

end Word
