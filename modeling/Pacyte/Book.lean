/-
# Books of capped balances and serial numbers

A book gives every party a balance and a serial number.  A payment reads both
parties, then writes the payer back, then the payee (`Book.pay`): balances and
costs are capped at `M`, serial numbers at `N`, and a payment to oneself ends
with the payee's copy, which has neither paid nor counted.

Two questions about a list of payments are answered by conditions on the list
and the book it starts from.

* When does the total go down by exactly the fees, and every serial number up
  by the number of payments sent?  (`Book.conserves_iff`)
* When does every payment carry the serial number its payer has at that moment,
  so that none is made twice?  (`Book.matches_nodup_iff`)
-/
import Mathlib

/-- A payment from `src` to `dst`; `serial` is the number the payer gave it. -/
structure Payment (A : Type) where
  src : A
  dst : A
  amount : ℕ
  fee : ℕ
  serial : ℕ

/-- A balance and a serial number for every party. -/
@[ext] structure Book (A : Type) where
  balance : A → ℕ
  nonce : A → ℕ

namespace Book

variable {A : Type} [DecidableEq A] (M N : ℕ)

/-! ## Payments -/

/-- What the payer is charged: the amount and the fee, capped. -/
def cost (p : Payment A) : ℕ := min (p.amount + p.fee) M

/-- One payment: both parties are read, then the payer and the payee written. -/
def pay (p : Payment A) (b : Book A) : Book A where
  balance := Function.update
    (Function.update b.balance p.src (b.balance p.src - cost M p))
    p.dst (min (b.balance p.dst + p.amount) M)
  nonce := Function.update
    (Function.update b.nonce p.src (min (b.nonce p.src + 1) N))
    p.dst (b.nonce p.dst)

/-- The payments of a list, one after the other. -/
def payAll : List (Payment A) → Book A → Book A
  | [], b => b
  | p :: rest, b => payAll rest (pay M N p b)

/-- Every payer can bear the cost when it is charged. -/
def Covered : List (Payment A) → Book A → Prop
  | [], _ => True
  | p :: rest, b => cost M p ≤ b.balance p.src ∧ Covered rest (pay M N p b)

/-- The number of payments sent by `a`. -/
def sent (a : A) (ps : List (Payment A)) : ℕ := ps.countP fun p => p.src = a

/-- The number of payments sent by `a` to somebody else. -/
def sentAway (a : A) (ps : List (Payment A)) : ℕ := ps.countP fun p => p.src = a ∧ p.dst ≠ a

theorem sent_cons (a : A) (p : Payment A) (ps : List (Payment A)) :
    sent a (p :: ps) = sent a ps + if p.src = a then 1 else 0 := by
  simp [sent, List.countP_cons]

theorem sentAway_cons (a : A) (p : Payment A) (ps : List (Payment A)) :
    sentAway a (p :: ps) = sentAway a ps + if p.src = a ∧ p.dst ≠ a then 1 else 0 := by
  simp [sentAway, List.countP_cons]

/-! ## Serial numbers -/

/-- A payment counts for its payer unless it goes to the payer itself. -/
theorem nonce_pay (p : Payment A) (b : Book A) (a : A) :
    (pay M N p b).nonce a
      = if p.src = a ∧ p.dst ≠ a then min (b.nonce a + 1) N else b.nonce a := by
  unfold pay
  by_cases hdst : p.dst = a
  · subst hdst
    simp
  · by_cases hsrc : p.src = a
    · subst hsrc
      simp [hdst, Function.update_of_ne (Ne.symm hdst)]
    · simp [hsrc, Function.update_of_ne (Ne.symm hdst), Function.update_of_ne (Ne.symm hsrc)]

theorem nonce_pay_le (p : Payment A) (b : Book A) (hb : ∀ a, b.nonce a ≤ N) (a : A) :
    (pay M N p b).nonce a ≤ N := by
  rw [nonce_pay]
  split_ifs
  · exact Nat.min_le_right _ _
  · exact hb a

/-- The serial number after a list of payments. -/
theorem nonce_payAll (ps : List (Payment A)) (b : Book A) (hb : ∀ a, b.nonce a ≤ N) (a : A) :
    (payAll M N ps b).nonce a = min (b.nonce a + sentAway a ps) N := by
  induction ps generalizing b with
  | nil => simp [payAll, sentAway, hb a]
  | cons p rest ih =>
      rw [payAll, ih _ (nonce_pay_le M N p b hb), nonce_pay, sentAway_cons]
      split_ifs <;> omega

/-- No payment goes to its own payer. -/
def NoSelf (ps : List (Payment A)) : Prop := ∀ p ∈ ps, p.src ≠ p.dst

theorem sentAway_le_sent (a : A) (ps : List (Payment A)) : sentAway a ps ≤ sent a ps := by
  apply List.countP_mono_left
  intro p _ h
  simp_all

/-- All payments of all parties count exactly when none goes to its own payer. -/
theorem sentAway_eq_sent_iff (ps : List (Payment A)) :
    (∀ a, sentAway a ps = sent a ps) ↔ NoSelf ps := by
  induction ps with
  | nil => simp [sent, sentAway, NoSelf]
  | cons p rest ih =>
      simp only [NoSelf, List.forall_mem_cons] at ih ⊢
      rw [← ih]
      constructor
      · intro h
        have hp := h p.src
        rw [sentAway_cons, sent_cons, if_pos rfl] at hp
        have hle := sentAway_le_sent p.src rest
        refine ⟨fun heq => ?_, fun a => ?_⟩
        · rw [if_neg (by simp [heq])] at hp
          omega
        · have ha := h a
          rw [sentAway_cons, sent_cons] at ha
          have := sentAway_le_sent a rest
          by_cases hsrc : p.src = a
          · split_ifs at ha <;> omega
          · rw [if_neg (fun hc => hsrc hc.1), if_neg hsrc] at ha
            omega
      · rintro ⟨hne, h⟩ a
        rw [sentAway_cons, sent_cons, h a]
        by_cases ha : p.src = a
        · subst ha
          simp [Ne.symm hne]
        · simp [ha]

/-- No payer's serial number would exceed the cap. -/
def NoncesFit (ps : List (Payment A)) (b : Book A) : Prop :=
  ∀ p ∈ ps, b.nonce p.src + sent p.src ps ≤ N

theorem noncesFit_iff (ps : List (Payment A)) (b : Book A) (hb : ∀ a, b.nonce a ≤ N) :
    NoncesFit N ps b ↔ ∀ a, b.nonce a + sent a ps ≤ N := by
  refine ⟨fun h a => ?_, fun h p _ => h p.src⟩
  by_cases hzero : sent a ps = 0
  · rw [hzero]
    exact hb a
  · rw [sent, List.countP_eq_zero] at hzero
    push Not at hzero
    obtain ⟨p, hp, hsrc⟩ := hzero
    have hsrc : p.src = a := by simpa using hsrc
    exact hsrc ▸ h p hp

/-- **Serial numbers count the payments sent** exactly when no payment goes to
its own payer and no counter would exceed the cap. -/
theorem nonce_counts_iff (ps : List (Payment A)) (b : Book A) (hb : ∀ a, b.nonce a ≤ N) :
    (∀ a, (payAll M N ps b).nonce a = b.nonce a + sent a ps) ↔
      NoSelf ps ∧ NoncesFit N ps b := by
  rw [← sentAway_eq_sent_iff, noncesFit_iff N ps b hb]
  constructor
  · intro h
    have key : ∀ a, sentAway a ps = sent a ps ∧ b.nonce a + sent a ps ≤ N := by
      intro a
      have ha := h a
      have hle := sentAway_le_sent a ps
      rw [nonce_payAll M N ps b hb] at ha
      omega
    exact ⟨fun a => (key a).1, fun a => (key a).2⟩
  · rintro ⟨hself, hroom⟩ a
    rw [nonce_payAll M N ps b hb, hself a]
    exact Nat.min_eq_left (hroom a)

/-! ## Totals -/

section Totals

variable [Fintype A]

/-- The sum of all balances. -/
def total (b : Book A) : ℕ := ∑ a, b.balance a

/-- What the cap on the cost forgives the payer. -/
def excess (p : Payment A) : ℕ := p.amount + p.fee - M

/-- What the cap on the balance takes from the payee. -/
def loss (p : Payment A) (b : Book A) : ℕ := b.balance p.dst + p.amount - M

/-- The fees of a list of payments. -/
def fees (ps : List (Payment A)) : ℕ := (ps.map Payment.fee).sum

/-- What all caps on costs forgive. -/
def excesses (ps : List (Payment A)) : ℕ := (ps.map (excess M)).sum

/-- What all caps on balances take, payment by payment. -/
def losses : List (Payment A) → Book A → ℕ
  | [], _ => 0
  | p :: rest, b => loss M p b + losses rest (pay M N p b)

omit [Fintype A] in
theorem balance_pay (p : Payment A) (b : Book A) (a : A) :
    (pay M N p b).balance a =
      if p.dst = a then min (b.balance a + p.amount) M
      else if p.src = a then b.balance a - cost M p else b.balance a := by
  unfold pay
  by_cases hdst : p.dst = a
  · subst hdst
    simp
  · by_cases hsrc : p.src = a
    · subst hsrc
      simp [hdst, Function.update_of_ne (Ne.symm hdst)]
    · simp [hdst, hsrc, Function.update_of_ne (Ne.symm hdst), Function.update_of_ne (Ne.symm hsrc)]

/-- A sum of which one term is replaced. -/
theorem sum_replace (f : A → ℕ) (a : A) (v : ℕ) :
    f a + ∑ x, Function.update f a v x = v + ∑ x, f x := by
  have hold := Finset.sum_eq_add_sum_sdiff_singleton_of_mem (Finset.mem_univ a) f
  have hnew := Finset.sum_update_of_mem (Finset.mem_univ a) f v
  omega

/-- The total after a payment to somebody else. -/
theorem total_pay (p : Payment A) (b : Book A) (hne : p.src ≠ p.dst)
    (hcov : cost M p ≤ b.balance p.src) :
    total (pay M N p b) + p.fee + loss M p b = total b + excess M p := by
  have h₁ := sum_replace
    (Function.update b.balance p.src (b.balance p.src - cost M p)) p.dst
    (min (b.balance p.dst + p.amount) M)
  have h₂ := sum_replace b.balance p.src (b.balance p.src - cost M p)
  rw [Function.update_of_ne hne.symm] at h₁
  unfold total loss excess
  unfold cost at *
  simp only [pay, cost]
  omega

/-- The total after a payment to oneself: the amount is minted up to the cap. -/
theorem total_pay_self (p : Payment A) (b : Book A) (heq : p.src = p.dst) :
    b.balance p.dst + total (pay M N p b) = min (b.balance p.dst + p.amount) M + total b := by
  unfold total pay
  rw [heq]
  simp only [Function.update_idem]
  exact sum_replace b.balance p.dst _

/-- The total after a list of payments to others. -/
theorem total_payAll (ps : List (Payment A)) (b : Book A) (hself : NoSelf ps)
    (hcov : Covered M N ps b) :
    total (payAll M N ps b) + fees ps + losses M N ps b = total b + excesses M ps := by
  induction ps generalizing b with
  | nil => rfl
  | cons p rest ih =>
      rw [NoSelf, List.forall_mem_cons] at hself
      have hp := total_pay M N p b hself.1 hcov.1
      have hrest := ih (pay M N p b) hself.2 hcov.2
      simp only [payAll, losses, fees, excesses, List.map_cons, List.sum_cons] at *
      omega

/-! ## Conservation -/

/-- No amount and fee together exceed the cap. -/
def CostsFit (ps : List (Payment A)) : Prop := ∀ p ∈ ps, p.amount + p.fee ≤ M

/-- What `a` is paid. -/
def received (a : A) (ps : List (Payment A)) : ℕ :=
  (ps.map fun p => if p.dst = a then p.amount else 0).sum

/-- What `a` pays, fees included. -/
def spent (a : A) (ps : List (Payment A)) : ℕ :=
  (ps.map fun p => if p.src = a then p.amount + p.fee else 0).sum

/-- No payee's balance, by plain arithmetic over the payments so far, ever
exceeds the cap. -/
def BalancesFit (ps : List (Payment A)) (b : Book A) : Prop :=
  ∀ done p rest, ps = done ++ p :: rest →
    b.balance p.dst + received p.dst done + p.amount ≤ M + spent p.dst done

/-- The payments that the book keeps exactly: none to oneself, none that meets a
cap. -/
structure Orderly (ps : List (Payment A)) (b : Book A) : Prop where
  noSelf : NoSelf ps
  noncesFit : NoncesFit N ps b
  costsFit : CostsFit M ps
  balancesFit : BalancesFit M ps b

/-- Payments whose caps make up for each other: what the caps on costs forgive,
the caps on balances take back. -/
structure Offset (ps : List (Payment A)) (b : Book A) : Prop where
  noSelf : NoSelf ps
  noncesFit : NoncesFit N ps b
  capped : ¬ CostsFit M ps
  balanced : excesses M ps = losses M N ps b

/-- The total goes down by the fees, the serial numbers up by the payments. -/
structure Conserves (ps : List (Payment A)) (b b' : Book A) : Prop where
  total : b'.total + fees ps = b.total
  nonce : ∀ a, b'.nonce a = b.nonce a + sent a ps

omit [DecidableEq A] [Fintype A] in
theorem excesses_eq_zero_iff (ps : List (Payment A)) : excesses M ps = 0 ↔ CostsFit M ps := by
  simp only [excesses, List.sum_eq_zero_iff, List.mem_map, excess, CostsFit]
  constructor
  · intro h p hp
    have := h _ ⟨p, hp, rfl⟩
    omega
  · rintro h _ ⟨p, hp, rfl⟩
    have := h p hp
    omega

omit [Fintype A] in
/-- A payment that meets no cap, in plain arithmetic. -/
theorem balance_pay_exact (p : Payment A) (b : Book A) (hne : p.src ≠ p.dst)
    (hcov : cost M p ≤ b.balance p.src) (hcost : p.amount + p.fee ≤ M)
    (hfit : b.balance p.dst + p.amount ≤ M) (a : A) :
    (pay M N p b).balance a + (if p.src = a then p.amount + p.fee else 0)
      = b.balance a + if p.dst = a then p.amount else 0 := by
  have hc : cost M p = p.amount + p.fee := Nat.min_eq_left hcost
  rw [balance_pay]
  by_cases hdst : p.dst = a
  · subst hdst
    rw [if_pos rfl, if_pos rfl, if_neg hne, Nat.min_eq_left hfit]
    rfl
  · rw [if_neg hdst, if_neg hdst]
    by_cases hsrc : p.src = a
    · subst hsrc
      rw [if_pos rfl, if_pos rfl]
      omega
    · rw [if_neg hsrc, if_neg hsrc]

omit [Fintype A] in
/-- Balances fit step by step. -/
theorem balancesFit_cons (p : Payment A) (rest : List (Payment A)) (b : Book A)
    (hne : p.src ≠ p.dst) (hcov : cost M p ≤ b.balance p.src)
    (hcost : p.amount + p.fee ≤ M) :
    BalancesFit M (p :: rest) b ↔
      b.balance p.dst + p.amount ≤ M ∧ BalancesFit M rest (pay M N p b) := by
  -- the condition on the head is the one with an empty list of earlier payments
  have hhead : BalancesFit M (p :: rest) b → b.balance p.dst + p.amount ≤ M := by
    intro h
    have := h [] p rest rfl
    simpa [received, spent] using this
  have htail : b.balance p.dst + p.amount ≤ M → ∀ (a : A) (done : List (Payment A)) (x : ℕ),
      (b.balance a + received a (p :: done) + x ≤ M + spent a (p :: done) ↔
        (pay M N p b).balance a + received a done + x ≤ M + spent a done) := by
    intro hfit a done x
    have h := balance_pay_exact M N p b hne hcov hcost hfit a
    simp only [received, spent, List.map_cons, List.sum_cons]
    omega
  constructor
  · intro h
    refine ⟨hhead h, ?_⟩
    rintro done q rest' rfl
    exact (htail (hhead h) q.dst done q.amount).mp (h (p :: done) q rest' rfl)
  · rintro ⟨hfit, h⟩ done q rest' heq
    cases done with
    | nil =>
        obtain ⟨rfl, rfl⟩ : p = q ∧ rest = rest' := by simpa using heq
        simpa [received, spent] using hfit
    | cons p' done =>
        obtain ⟨rfl, hrest⟩ : p = p' ∧ rest = done ++ q :: rest' := by simpa using heq
        exact (htail hfit q.dst done q.amount).mpr (h done q rest' hrest)

omit [Fintype A] in
/-- Where the costs fit, the caps on balances take nothing exactly when the
balances fit. -/
theorem losses_eq_zero_iff (ps : List (Payment A)) (b : Book A) (hself : NoSelf ps)
    (hcov : Covered M N ps b) (hcost : CostsFit M ps) :
    losses M N ps b = 0 ↔ BalancesFit M ps b := by
  induction ps generalizing b with
  | nil => simp [losses, BalancesFit]
  | cons p rest ih =>
      rw [NoSelf, List.forall_mem_cons] at hself
      rw [CostsFit, List.forall_mem_cons] at hcost
      rw [balancesFit_cons M N p rest b hself.1 hcov.1 hcost.1,
        ← ih (pay M N p b) hself.2 hcov.2 hcost.2, losses, loss]
      omega

/-- A total below the cap leaves nothing for the caps on balances to take. -/
theorem losses_eq_zero_of_total (ps : List (Payment A)) (b : Book A) (hself : NoSelf ps)
    (hcov : Covered M N ps b) (hamount : ∀ p ∈ ps, p.amount ≤ M) (htotal : total b ≤ M) :
    losses M N ps b = 0 := by
  induction ps generalizing b with
  | nil => rfl
  | cons p rest ih =>
      rw [NoSelf, List.forall_mem_cons] at hself
      rw [List.forall_mem_cons] at hamount
      have htwo : b.balance p.src + b.balance p.dst ≤ total b := by
        rw [← Finset.sum_pair hself.1]
        exact Finset.sum_le_univ_sum_of_nonneg (fun _ => Nat.zero_le _)
      have hcov₁ := hcov.1
      have hpay := total_pay M N p b hself.1 hcov.1
      unfold cost at hcov₁
      unfold loss excess at hpay
      have hloss : loss M p b = 0 := by
        unfold loss
        omega
      rw [losses, hloss, ih (pay M N p b) hself.2 hcov.2 hamount.2 (by omega)]

/-- **Payments conserve exactly when they are orderly**, or when their caps make
up for each other. -/
theorem conserves_iff (ps : List (Payment A)) (b : Book A) (hb : ∀ a, b.nonce a ≤ N)
    (hcov : Covered M N ps b) :
    Conserves ps b (payAll M N ps b) ↔ Orderly M N ps b ∨ Offset M N ps b := by
  have hzero := excesses_eq_zero_iff M ps
  constructor
  · rintro ⟨hcons, hnonce⟩
    obtain ⟨hself, hroom⟩ := (nonce_counts_iff M N ps b hb).mp hnonce
    have htotal := total_payAll M N ps b hself hcov
    by_cases hcost : CostsFit M ps
    · left
      have hexc := hzero.mpr hcost
      refine ⟨hself, hroom, hcost, ?_⟩
      exact (losses_eq_zero_iff M N ps b hself hcov hcost).mp (by omega)
    · right
      exact ⟨hself, hroom, hcost, by omega⟩
  · rintro (h | h)
    · have htotal := total_payAll M N ps b h.noSelf hcov
      have hexc := hzero.mpr h.costsFit
      have hloss := (losses_eq_zero_iff M N ps b h.noSelf hcov h.costsFit).mpr h.balancesFit
      exact ⟨by omega, (nonce_counts_iff M N ps b hb).mpr ⟨h.noSelf, h.noncesFit⟩⟩
    · have htotal := total_payAll M N ps b h.noSelf hcov
      have hbal := h.balanced
      exact ⟨by omega, (nonce_counts_iff M N ps b hb).mpr ⟨h.noSelf, h.noncesFit⟩⟩

/-- Caps can make up for each other only where the total exceeds the cap. -/
theorem Offset.lt_total {ps : List (Payment A)} {b : Book A} (h : Offset M N ps b)
    (hcov : Covered M N ps b) (hamount : ∀ p ∈ ps, p.amount ≤ M) : M < total b := by
  by_contra hle
  have hloss := losses_eq_zero_of_total M N ps b h.noSelf hcov hamount (by omega)
  exact h.capped ((excesses_eq_zero_iff M ps).mp (h.balanced.trans hloss))

end Totals

/-! ## Replay -/

/-- Every payment carries the serial number its payer has at that moment. -/
def Matches : List (Payment A) → Book A → Prop
  | [], _ => True
  | p :: rest, b => p.serial = b.nonce p.src ∧ Matches rest (pay M N p b)

theorem matches_append (ps qs : List (Payment A)) (b : Book A) :
    Matches M N (ps ++ qs) b ↔ Matches M N ps b ∧ Matches M N qs (payAll M N ps b) := by
  induction ps generalizing b with
  | nil => simp [Matches, payAll]
  | cons p rest ih => rw [List.cons_append, Matches, Matches, payAll, ih, and_assoc]

/-- The payments of each payer are numbered on from the payer's serial number,
and only the last of them may go to the payer itself. -/
def InOrder (ps : List (Payment A)) (b : Book A) : Prop :=
  ∀ done p rest, ps = done ++ p :: rest →
    p.serial = b.nonce p.src + sent p.src done ∧ ∀ q ∈ done, q.src = p.src → q.dst ≠ q.src

/-- Payments in order, step by step: the head has its payer's number, and the
numbers after it go on from there. -/
theorem inOrder_cons (p : Payment A) (rest : List (Payment A)) (b : Book A) :
    InOrder (p :: rest) b ↔ p.serial = b.nonce p.src ∧
      ∀ done q rest', rest = done ++ q :: rest' →
        q.serial = b.nonce q.src + sent q.src (p :: done) ∧
        (p.src = q.src → p.dst ≠ p.src) ∧ ∀ r ∈ done, r.src = q.src → r.dst ≠ r.src := by
  constructor
  · intro h
    refine ⟨by simpa [sent] using (h [] p rest rfl).1, ?_⟩
    rintro done q rest' rfl
    obtain ⟨h₁, h₂⟩ := h (p :: done) q rest' rfl
    rw [List.forall_mem_cons] at h₂
    exact ⟨h₁, h₂.1, h₂.2⟩
  · rintro ⟨hp, h⟩ done q rest' heq
    cases done with
    | nil =>
        obtain ⟨rfl, rfl⟩ : p = q ∧ rest = rest' := by simpa using heq
        exact ⟨by simpa [sent] using hp, by simp⟩
    | cons p' done =>
        obtain ⟨rfl, hrest⟩ : p = p' ∧ rest = done ++ q :: rest' := by simpa using heq
        obtain ⟨h₁, h₂, h₃⟩ := h done q rest' hrest
        exact ⟨h₁, List.forall_mem_cons.mpr ⟨h₂, h₃⟩⟩

/-- The first later payment of a payer carries the number the payer had left. -/
theorem InOrder.exists_first {ps : List (Payment A)} {b : Book A} (h : InOrder ps b) {a : A}
    (ha : ∃ q ∈ ps, q.src = a) : ∃ q ∈ ps, q.src = a ∧ q.serial = b.nonce a := by
  obtain ⟨q, hq⟩ : ∃ q, ps.find? (fun q => q.src = a) = some q := by
    rw [← Option.isSome_iff_exists, List.find?_isSome]
    simpa using ha
  obtain ⟨hsrc, done, rest, rfl, hdone⟩ := List.find?_eq_some_iff_append.mp hq
  have hsrc : q.src = a := by simpa using hsrc
  refine ⟨q, by simp, hsrc, ?_⟩
  have hnone : sent q.src done = 0 := by
    rw [sent, List.countP_eq_zero]
    intro r hr
    simpa [hsrc] using hdone r hr
  rw [(h done q rest rfl).1, hnone, hsrc]
  rfl

/-- **No payment is out of turn or made twice** exactly when the payments are in
order. -/
theorem matches_nodup_iff (ps : List (Payment A)) (b : Book A) (hb : ∀ a, b.nonce a ≤ N)
    (hserial : ∀ p ∈ ps, p.serial ≤ N) :
    (Matches M N ps b ∧ (ps.map fun p => (p.src, p.serial)).Nodup) ↔ InOrder ps b := by
  induction ps generalizing b with
  | nil => simp [Matches, InOrder]
  | cons p rest ih =>
      rw [List.forall_mem_cons] at hserial
      have ih' := ih (pay M N p b) (nonce_pay_le M N p b hb) hserial.2
      rw [inOrder_cons, Matches, List.map_cons, List.nodup_cons]
      constructor
      · rintro ⟨⟨hp, hmatch⟩, hnew, hnodup⟩
        have hrest := ih'.mp ⟨hmatch, hnodup⟩
        -- a later payment of the same payer needs a number that has moved on
        have hmoved : (∃ q ∈ rest, q.src = p.src) →
            p.dst ≠ p.src ∧ b.nonce p.src + 1 ≤ N := by
          intro hex
          obtain ⟨q, hq, hsrc, hser⟩ := hrest.exists_first hex
          have hne : (pay M N p b).nonce p.src ≠ b.nonce p.src := by
            intro heq
            apply hnew
            rw [List.mem_map]
            exact ⟨q, hq, by rw [hsrc, hser, heq, hp]⟩
          rw [nonce_pay] at hne
          have := hb p.src
          split_ifs at hne with hcond
          · exact ⟨hcond.2, by omega⟩
          · exact absurd rfl hne
        refine ⟨hp, ?_⟩
        rintro done q rest' rfl
        obtain ⟨h₁, h₂⟩ := hrest done q rest' rfl
        refine ⟨?_, fun hsrc => (hmoved ⟨q, by simp, hsrc.symm⟩).1, h₂⟩
        rw [h₁, nonce_pay, sent_cons]
        by_cases hsrc : p.src = q.src
        · obtain ⟨hdst, hroom⟩ := hmoved ⟨q, by simp, hsrc.symm⟩
          rw [if_pos ⟨hsrc, hsrc ▸ hdst⟩, if_pos hsrc]
          rw [hsrc] at hroom
          omega
        · rw [if_neg (fun h => hsrc h.1), if_neg hsrc]
          omega
      · rintro ⟨hp, h⟩
        have hrest : InOrder rest (pay M N p b) := by
          rintro done q rest' rfl
          obtain ⟨h₁, h₂, h₃⟩ := h done q rest' rfl
          refine ⟨?_, h₃⟩
          have hq : q.serial ≤ N := hserial.2 q (by simp)
          rw [sent_cons] at h₁
          rw [nonce_pay]
          by_cases hsrc : p.src = q.src
          · rw [if_pos hsrc] at h₁
            rw [if_pos ⟨hsrc, hsrc ▸ h₂ hsrc⟩]
            omega
          · rw [if_neg hsrc] at h₁
            rw [if_neg (fun h => hsrc h.1)]
            exact h₁
        obtain ⟨hmatch, hnodup⟩ := ih'.mpr hrest
        refine ⟨⟨hp, hmatch⟩, ?_, hnodup⟩
        intro hmem
        obtain ⟨q, hq, heq⟩ := List.mem_map.mp hmem
        obtain ⟨hsrc, hser⟩ := Prod.mk.inj heq
        obtain ⟨done, rest', rfl⟩ := List.append_of_mem hq
        have h₁ := (h done q rest' rfl).1
        rw [sent_cons, if_pos hsrc.symm, hser, hp, hsrc] at h₁
        omega

end Book
