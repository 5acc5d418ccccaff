/-
# Merged batches

`WriteBatch` of `src/storage/mod.rs` is filled entry by entry, and batches are merged.  Writing a
merged batch to the in-memory storage ends like writing the two batches one after the other.  If
there is room for all their blocks, both return and leave the same blocks, transactions, accounts
and state roots (`writeBatch_merge`).  A block without room is different: the accounts of the first
batch are written before the blocks of the second, but after them in the merged batch.
-/
import Pacyte.BatchReplay

namespace WriteBatch

/-- `WriteBatch::merge`. -/
def merge (batch other : WriteBatch) : WriteBatch where
  blocks := batch.blocks ++ other.blocks
  transactions := batch.transactions ++ other.transactions
  accounts := batch.accounts ++ other.accounts
  stateRoots := batch.stateRoots ++ other.stateRoots

end WriteBatch

namespace MemoryStorage

variable [Primitives]

omit [Primitives] in
theorem merge_pair (batch other : WriteBatch) : merge [batch, other] = batch.merge other := by
  unfold merge WriteBatch.merge
  simp only [List.flatMap_cons, List.flatMap_nil, List.append_nil]

/-- The second storage holds what the first one does. -/
structure SameContent (s s' : MemoryStorage) : Prop where
  blocks : s'.blocks = s.blocks
  transactions : s'.transactions.lookup = s.transactions.lookup
  accounts : s'.accounts.lookup = s.accounts.lookup
  stateRoots : s'.stateRoots.lookup = s.stateRoots.lookup

/-- Two runs that write one batch end alike. -/
theorem Writes.same {batch : WriteBatch} {s : MemoryStorage}
    {r r' : Outcome PacyteError Unit × MemoryStorage} (h : Writes batch s r)
    (h' : Writes batch s r') : r'.1 = r.1 ∧ (r.1 = .ok () → SameContent r.2 r'.2) := by
  unfold Writes at h h'
  cases hplace : placeAll (batch.blocks.map Prod.snd) (s.blocks, s.clock) with
  | none =>
      simp only [hplace] at h h'
      refine ⟨h'.trans h.symm, fun hok => ?_⟩
      rw [h] at hok
      cases hok
  | some p =>
      simp only [hplace] at h h'
      obtain ⟨hok, hp, hwrote⟩ := h
      obtain ⟨hok', hp', hwrote'⟩ := h'
      refine ⟨hok'.trans hok.symm, fun _ => ⟨?_, ?_, ?_, ?_⟩⟩
      · exact (Prod.mk.inj (hp'.trans hp.symm)).1
      · rw [hwrote'.transactions, hwrote.transactions]
      · rw [hwrote'.accounts, hwrote.accounts]
      · rw [hwrote'.stateRoots, hwrote.stateRoots]

/-- A batch whose blocks have room is written. -/
theorem Writes.returns {batch : WriteBatch} {s : MemoryStorage}
    {r : Outcome PacyteError Unit × MemoryStorage} (h : Writes batch s r)
    (hroom : ∀ e ∈ batch.blocks, Storable e.2) : r.1 = .ok () := by
  have hblocks : ∀ block ∈ batch.blocks.map Prod.snd, Storable block := by
    intro block hblock
    obtain ⟨e, he, rfl⟩ := List.mem_map.mp hblock
    exact hroom e he
  obtain ⟨p, hplace⟩ := placeAll_of_storable hblocks (s.blocks, s.clock)
  unfold Writes at h
  rw [hplace] at h
  exact h.1

/-- **Batches compose**: writing a merged batch ends as writing the first batch and then the second
one, and if there is room for the blocks, both return and leave the same content. -/
theorem writeBatch_merge (batch other : WriteBatch) (s : MemoryStorage) :
    let merged := Storage.writeBatch (batch.merge other) s
    let both := (Storage.writeBatch batch >>= fun _ => Storage.writeBatch other :
      Exec PacyteError MemoryStorage Unit) s
    both.1 = merged.1 ∧ ((∀ e ∈ batch.blocks ++ other.blocks, Storable e.2) →
      merged.1 = .ok () ∧ SameContent merged.2 both.2) := by
  intro merged both
  have hmerged : Writes (batch.merge other) s merged := writes_writeBatch _ s
  have hboth : Writes (batch.merge other) s both := by
    have hbatches := writes_batches [batch, other] s
    rw [merge_pair] at hbatches
    have hlast : ∀ s', forEach Storage.writeBatch [other] s' =
        (Storage.writeBatch other : Exec PacyteError MemoryStorage Unit) s' := by
      intro s'
      show ((Storage.writeBatch other : Exec PacyteError MemoryStorage Unit) >>=
        fun _ => pure ()) s' = _
      rw [Exec.run_bind]
      rcases (Storage.writeBatch other : Exec PacyteError MemoryStorage Unit) s' with
        ⟨_ | _ | _, s''⟩ <;> rfl
    have hrun : forEach Storage.writeBatch [batch, other] s = both := by
      show ((Storage.writeBatch batch : Exec PacyteError MemoryStorage Unit) >>=
        fun _ => forEach Storage.writeBatch [other]) s = _
      rw [show forEach Storage.writeBatch [other] =
        (Storage.writeBatch other : Exec PacyteError MemoryStorage Unit) from funext hlast]
    rwa [hrun] at hbatches
  obtain ⟨hends, hsame⟩ := hmerged.same hboth
  refine ⟨hends, fun hroom => ?_⟩
  have hok := hmerged.returns hroom
  exact ⟨hok, hsame hok⟩

end MemoryStorage

section Example

open scoped Sample
open Sample

/-- A batch with an account, and one with the block of a height. -/
def Sample.accountBatch : WriteBatch := ⟨[], [], [(zero32, some (Account.new zero32 5 0))], []⟩

def Sample.blockBatch (height : BlockHeight) : WriteBatch :=
  ⟨[(height, Block.new height zero32 [] zero32 0)], [], [], []⟩

/-- No vector has room for the last height: one batch after the other leaves the account, the
merged batch does not. -/
theorem merged_account_lost :
    let batch := accountBatch
    let other := blockBatch 0xFFFFFFFFFFFFFFFF
    let s := MemoryStorage.new fun _ => 0
    ¬ MemoryStorage.SameContent (Storage.writeBatch (batch.merge other) s).2
      ((Storage.writeBatch batch >>= fun _ => Storage.writeBatch other :
        Exec PacyteError MemoryStorage Unit) s).2 := by
  intro batch other s h
  have haccount := congrFun h.accounts zero32
  revert haccount
  decide +kernel

/-- Two blocks, and an account that the second batch deletes. -/
theorem merged_chain_same :
    let batch : WriteBatch := accountBatch.merge (blockBatch 0)
    let other : WriteBatch := (blockBatch 1).merge ⟨[], [], [(zero32, none)], [(1, zero32)]⟩
    let s := MemoryStorage.new fun _ => 0
    let merged := Storage.writeBatch (batch.merge other) s
    let both := (Storage.writeBatch batch >>= fun _ => Storage.writeBatch other :
      Exec PacyteError MemoryStorage Unit) s
    merged.1 = .ok () ∧ merged.2.blocks.length = 2 ∧ MemoryStorage.SameContent merged.2 both.2 := by
  intro batch other s merged both
  obtain ⟨hok, hsame⟩ := (MemoryStorage.writeBatch_merge batch other s).2 (by decide)
  exact ⟨hok, by decide +kernel, hsame⟩

end Example
