/-
# Self-delimiting encodings

An encoding writes values as bytes.  It is self-delimiting if a value can be read
back from the front of a longer byte string, whatever follows (`PrefixCode`).

`Reads e q` is the relative form: the encoding `e` determines the part `q` of the
value and where it ends.  Encodings are composed by appending them, and parts by
pairing them (`Reads.append`); an encoding that reads a part which determines the
whole value is self-delimiting (`Reads.prefixCode`).

Lengths are written as words of 64 bits, so all this is about strings of less than
`2 ^ 64` bytes.
-/
import Pacyte.HashTree

/-- The value `q a` can be read back from the front of `e a`, and with it the place
where `e a` ends. -/
def Reads {α β : Type} (e : α → List UInt8) (q : α → β) : Prop :=
  ∀ a b s t, (e a ++ s).length < 2 ^ 64 → e a ++ s = e b ++ t → q a = q b ∧ s = t

/-- The value can be read back from the front of its encoding. -/
def PrefixCode {α : Type} (e : α → List UInt8) : Prop := Reads e id

section Combine

variable {α β γ : Type}

/-- An encoding of a part of the value. -/
theorem PrefixCode.part {e : β → List UInt8} (h : PrefixCode e) (p : α → β) :
    Reads (fun a => e (p a)) p :=
  fun a b s t hlen heq => h (p a) (p b) s t hlen heq

/-- Two encodings, one after the other. -/
theorem Reads.append {e e' : α → List UInt8} {q : α → β} {q' : α → γ} (h : Reads e q)
    (h' : Reads e' q') : Reads (fun a => e a ++ e' a) (fun a => (q a, q' a)) := by
  intro a b s t hlen heq
  simp only [List.append_assoc] at heq hlen
  obtain ⟨hq, hrest⟩ := h a b _ _ hlen heq
  have hlen' : (e' a ++ s).length < 2 ^ 64 := by
    rw [List.length_append] at hlen
    omega
  obtain ⟨hq', hst⟩ := h' a b s t hlen' hrest
  exact ⟨Prod.ext hq hq', hst⟩

/-- An encoding that determines a part which determines the value. -/
theorem Reads.prefixCode {e : α → List UInt8} {q : α → β} (h : Reads e q)
    (hq : Function.Injective q) : PrefixCode e := by
  intro a b s t hlen heq
  obtain ⟨hab, hst⟩ := h a b s t hlen heq
  exact ⟨hq hab, hst⟩

/-- The encoding of a pair. -/
theorem PrefixCode.pair {e : α → List UInt8} {e' : β → List UInt8} (h : PrefixCode e)
    (h' : PrefixCode e') : PrefixCode fun p : α × β => e p.1 ++ e' p.2 :=
  ((h.part Prod.fst).append (h'.part Prod.snd)).prefixCode Function.injective_id

end Combine

/-! ## Words, arrays and lists -/

/-- A number of a fixed width. -/
theorem PrefixCode.word {α : Type} {w : ℕ} {toNat : α → ℕ} (hlt : ∀ a, toNat a < 256 ^ w)
    (hinj : Function.Injective toNat) : PrefixCode fun a => leBytes w (toNat a) := by
  intro a b s t _ heq
  obtain ⟨hab, hst⟩ := leBytes_append_inj (hlt a) (hlt b) heq
  exact ⟨hinj hab, hst⟩

/-- An array of a fixed size. -/
theorem PrefixCode.vector (k : ℕ) : PrefixCode fun v : Vector UInt8 k => v.toList :=
  fun _ _ _ _ _ heq => Vector.toList_append_inj heq

/-- A byte string with its length in front. -/
theorem PrefixCode.bytes : PrefixCode fun bs : List UInt8 => leBytes 8 bs.length ++ bs := by
  intro a b s t hlen heq
  have hlen' := congrArg List.length heq
  simp only [List.length_append, length_leBytes] at hlen hlen'
  rw [List.append_assoc, List.append_assoc] at heq
  obtain ⟨hl, hrest⟩ := leBytes_append_inj (by omega) (by omega) heq
  exact List.append_inj hrest hl

/-- The elements of two lists of one length. -/
theorem PrefixCode.flatMap {α : Type} {e : α → List UInt8} (h : PrefixCode e) (l l' : List α)
    (s t : List UInt8) (hl : l.length = l'.length) (hlen : (l.flatMap e ++ s).length < 2 ^ 64)
    (heq : l.flatMap e ++ s = l'.flatMap e ++ t) : l = l' ∧ s = t := by
  induction l generalizing l' with
  | nil =>
      obtain rfl : l' = [] := List.length_eq_zero_iff.mp hl.symm
      exact ⟨rfl, heq⟩
  | cons a l ih =>
      cases l' with
      | nil => cases hl
      | cons b l' =>
          simp only [List.flatMap_cons, List.append_assoc] at heq hlen
          obtain ⟨hab, hrest⟩ := h a b _ _ hlen heq
          have hlen' : (l.flatMap e ++ s).length < 2 ^ 64 := by
            rw [List.length_append] at hlen
            omega
          obtain ⟨hll, hst⟩ := ih l' (Nat.succ_inj.mp hl) hlen' hrest
          exact ⟨List.cons_eq_cons.mpr ⟨hab, hll⟩, hst⟩

/-- A list is not longer than its encoding, if every element takes a byte. -/
theorem length_le_length_flatMap {α : Type} {e : α → List UInt8} (hpos : ∀ a, e a ≠ [])
    (l : List α) : l.length ≤ (l.flatMap e).length := by
  induction l with
  | nil => exact Nat.zero_le _
  | cons a l ih =>
      have ha := List.length_pos_iff.mpr (hpos a)
      rw [List.flatMap_cons, List.length_append, List.length_cons]
      omega

/-- A list with its length in front. -/
theorem PrefixCode.list {α : Type} {e : α → List UInt8} (h : PrefixCode e)
    (hpos : ∀ a, e a ≠ []) : PrefixCode fun l : List α => leBytes 8 l.length ++ l.flatMap e := by
  intro l l' s t hlen heq
  have hlen' := congrArg List.length heq
  simp only [List.length_append, length_leBytes] at hlen hlen'
  have hle := length_le_length_flatMap hpos l
  have hle' := length_le_length_flatMap hpos l'
  rw [List.append_assoc, List.append_assoc] at heq
  obtain ⟨hl, hrest⟩ := leBytes_append_inj (by omega) (by omega) heq
  refine h.flatMap l l' s t hl ?_ hrest
  rw [List.length_append]
  omega

/-- An optional value: a byte that tells whether there is one, then the value. -/
theorem PrefixCode.option {α : Type} {e : α → List UInt8} (h : PrefixCode e) :
    PrefixCode fun o : Option α => o.elim [0] fun a => 1 :: e a := by
  intro o o' s t hlen heq
  cases o with
  | none =>
      cases o' with
      | none => exact ⟨rfl, (List.cons.inj heq).2⟩
      | some b => exact absurd (List.cons.inj heq).1 (by decide)
  | some a =>
      cases o' with
      | none => exact absurd (List.cons.inj heq).1 (by decide)
      | some b =>
          have hlen' : (e a ++ s).length < 2 ^ 64 := by
            simp only [Option.elim_some, List.cons_append, List.length_cons] at hlen
            omega
          obtain ⟨hab, hst⟩ := h a b s t hlen' (List.cons.inj heq).2
          exact ⟨congrArg some hab, hst⟩
