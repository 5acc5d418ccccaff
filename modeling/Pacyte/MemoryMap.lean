/-
# Memory as a map of bytes

`Memory` of `src/execution/vm.rs` keeps the bytes up to the end of what was written; an address
beyond them has the byte 0.  After any reads and writes a read returns for every address the byte
that was last written there, or 0 (`memory_byteMap`), as long as no call asks for a vector of more
than `isize::MAX` bytes (`huge_memory_panics`).

The first part is about maps from addresses to bytes and names nothing of the machine.
-/
import Pacyte.Runs
import Pacyte.VirtualMachine

open Exec

/-! ## Maps of bytes -/

namespace ByteMap

/-- The map with the bytes at the address and behind it. -/
def overlay (m : ℕ → UInt8) (offset : ℕ) (bytes : List UInt8) (a : ℕ) : UInt8 :=
  if offset ≤ a ∧ a < offset + bytes.length then bytes.getD (a - offset) 0 else m a

theorem overlay_inside (m : ℕ → UInt8) {offset : ℕ} {bytes : List UInt8} {a : ℕ}
    (h : offset ≤ a) (h' : a < offset + bytes.length) :
    overlay m offset bytes a = bytes.getD (a - offset) 0 := if_pos ⟨h, h'⟩

theorem overlay_before (m : ℕ → UInt8) {offset : ℕ} (bytes : List UInt8) {a : ℕ}
    (h : a < offset) : overlay m offset bytes a = m a :=
  if_neg fun hin => Nat.not_lt.mpr hin.1 h

theorem overlay_after (m : ℕ → UInt8) {offset : ℕ} {bytes : List UInt8} {a : ℕ}
    (h : offset + bytes.length ≤ a) : overlay m offset bytes a = m a :=
  if_neg fun hin => Nat.not_lt.mpr h hin.2

/-- The map of a list of bytes, with 0 behind its end. -/
def ofBytes (data : List UInt8) (a : ℕ) : UInt8 := data.getD a 0

theorem ofBytes_nil : ofBytes [] = fun _ => 0 := rfl

theorem ofBytes_beyond {data : List UInt8} {a : ℕ} (h : data.length ≤ a) : ofBytes data a = 0 :=
  List.getD_eq_default data 0 h

theorem ofBytes_append_left {data rest : List UInt8} {a : ℕ} (h : a < data.length) :
    ofBytes (data ++ rest) a = ofBytes data a := List.getD_append data rest 0 a h

theorem ofBytes_append_right {data rest : List UInt8} {a : ℕ} (h : data.length ≤ a) :
    ofBytes (data ++ rest) a = ofBytes rest (a - data.length) :=
  List.getD_append_right data rest 0 a h

/-- Zeros at the end make no difference. -/
theorem ofBytes_append_zeros (data : List UInt8) (n : ℕ) :
    ofBytes (data ++ List.replicate n 0) = ofBytes data := by
  funext a
  by_cases ha : a < data.length
  · exact ofBytes_append_left ha
  · rw [ofBytes_append_right (Nat.le_of_not_lt ha), ofBytes_beyond (Nat.le_of_not_lt ha)]
    unfold ofBytes
    rw [List.getD_eq_getElem?_getD, List.getElem?_replicate]
    split_ifs <;> rfl

theorem ofBytes_take {data : List UInt8} {n a : ℕ} (h : a < n) :
    ofBytes (data.take n) a = ofBytes data a := by
  unfold ofBytes
  rw [List.getD_eq_getElem?_getD, List.getD_eq_getElem?_getD, List.getElem?_take_of_lt h]

theorem ofBytes_drop (data : List UInt8) (n a : ℕ) :
    ofBytes (data.drop n) a = ofBytes data (n + a) := by
  unfold ofBytes
  rw [List.getD_eq_getElem?_getD, List.getD_eq_getElem?_getD, List.getElem?_drop]

/-- Bytes in the place of others. -/
theorem ofBytes_replace {data : List UInt8} {offset : ℕ} (bytes : List UInt8)
    (h : offset + bytes.length ≤ data.length) :
    ofBytes (data.take offset ++ bytes ++ data.drop (offset + bytes.length)) =
      overlay (ofBytes data) offset bytes := by
  have htake : (data.take offset).length = offset := by
    rw [List.length_take]
    omega
  have hfront : (data.take offset ++ bytes).length = offset + bytes.length := by
    rw [List.length_append, htake]
  funext a
  by_cases hbefore : a < offset
  · rw [overlay_before _ bytes hbefore, ofBytes_append_left (by omega),
      ofBytes_append_left (by omega), ofBytes_take hbefore]
  · by_cases hafter : a < offset + bytes.length
    · rw [overlay_inside _ (Nat.le_of_not_lt hbefore) hafter, ofBytes_append_left (by omega),
        ofBytes_append_right (by omega), htake]
      rfl
    · rw [overlay_after _ (Nat.le_of_not_lt hafter), ofBytes_append_right (by omega), hfront,
        ofBytes_drop, Nat.add_sub_cancel' (Nat.le_of_not_lt hafter)]

end ByteMap

/-! ## The calls of a memory -/

/-- The calls of a `Memory`. -/
inductive MemoryCall : Type where
  | read (offset size : ℕ)
  | readWord (offset : ℕ)
  | write (offset : ℕ) (bytes : Bytes)
  | writeWord (offset : ℕ) (word : Word)

namespace MemoryCall

/-- The end of the bytes that the call is about is a position, and the bytes that it reads, or the
memory after it, fit into a vector. -/
def Fits : MemoryCall → Prop
  | read offset size => offset + size < 2 ^ 64 ∧ size < 2 ^ 63
  | readWord offset => offset + 32 < 2 ^ 64
  | write offset bytes => offset + bytes.length < 2 ^ 63
  | writeWord offset _ => offset + 32 < 2 ^ 63

instance : DecidablePred Fits
  | read _ _ => inferInstanceAs (Decidable (_ ∧ _))
  | readWord _ => inferInstanceAs (Decidable (_ < _))
  | write _ _ => inferInstanceAs (Decidable (_ < _))
  | writeWord _ _ => inferInstanceAs (Decidable (_ < _))

/-- A call on the bytes of the memory; a read returns the bytes, a write none. -/
def run : MemoryCall → Exec Empty Bytes Bytes
  | read offset size => do
    let data ← Exec.get
    Memory.read .bounded data offset size
  | readWord offset => do
    let data ← Exec.get
    let word ← Memory.readWord .bounded data offset
    return word.toList
  | write offset bytes => do
    let data ← Exec.get
    let data ← Memory.write .bounded data offset bytes
    Exec.modify fun _ => data
    return []
  | writeWord offset word => do
    let data ← Exec.get
    let data ← Memory.write .bounded data offset word.toList
    Exec.modify fun _ => data
    return []

/-- The bytes after a call. -/
def after (call : MemoryCall) (data : Bytes) : Bytes := (call.run data).2

/-- What a call does to the map of bytes. -/
def effect : MemoryCall → (ℕ → UInt8) → ℕ → UInt8
  | read _ _, m => m
  | readWord _, m => m
  | write offset bytes, m => ByteMap.overlay m offset bytes
  | writeWord offset word, m => ByteMap.overlay m offset word.toList

/-- The byte that the calls have last written at each address, or 0. -/
def contents (calls : List MemoryCall) : ℕ → UInt8 := Runs.run effect (fun _ => 0) calls

/-- What a call returns, by the contents. -/
def Answers (m : ℕ → UInt8) : MemoryCall → Bytes → Prop
  | read offset size, bytes => bytes.length = size ∧ ∀ k < size, bytes.getD k 0 = m (offset + k)
  | readWord offset, bytes => bytes.length = 32 ∧ ∀ k < 32, bytes.getD k 0 = m (offset + k)
  | write _ _, bytes => bytes = []
  | writeWord _ _, bytes => bytes = []

end MemoryCall

namespace Memory

variable {ε σ : Type}

theorem allocate_run {size : ℕ} (h : size < 2 ^ 63) (allocation : Allocation) (s : σ) :
    (allocate size allocation : Exec ε σ Unit) s = (.ok (), s) := by
  cases allocation with
  | succeeds => rfl
  | bounded =>
      unfold allocate
      rw [if_pos h]
      rfl

/-- Zeros are added up to the size. -/
theorem resize_spec (allocation : Allocation) (data : Bytes) {size : ℕ} (h : size < 2 ^ 63) (s : σ) :
    ∃ data', (resize allocation data size : Exec ε σ Bytes) s = (.ok data', s) ∧
      data'.length = max data.length size ∧ ByteMap.ofBytes data' = ByteMap.ofBytes data := by
  unfold resize
  split_ifs with hgrows
  · refine ⟨_, run_bind_of_ok (allocate_run h allocation s), ?_, ByteMap.ofBytes_append_zeros _ _⟩
    rw [List.length_append, List.length_replicate]
    omega
  · exact ⟨data, rfl, (Nat.max_eq_left (Nat.le_of_not_lt hgrows)).symm, rfl⟩

/-- A write replaces the bytes, and makes the memory longer if it has to. -/
theorem write_spec (allocation : Allocation) {data bytes : Bytes} {offset : ℕ}
    (h : offset + bytes.length < 2 ^ 63) (s : σ) :
    ∃ data', (write allocation data offset bytes : Exec ε σ Bytes) s = (.ok data', s) ∧
      data.length ≤ data'.length ∧
      ByteMap.ofBytes data' = ByteMap.overlay (ByteMap.ofBytes data) offset bytes := by
  obtain ⟨longer, hresize, hlength, hmap⟩ := resize_spec (ε := ε) allocation data h s
  unfold write addUsize
  rw [if_pos (lt_trans h (by decide)), Exec.pure_bind, run_bind_of_ok hresize]
  refine ⟨_, rfl, ?_, ?_⟩
  · rw [List.length_append, List.length_append, List.length_take, List.length_drop, hlength]
    omega
  · rw [ByteMap.ofBytes_replace bytes (by omega), hmap]

/-- A read returns the bytes of the map. -/
theorem read_spec (allocation : Allocation) (data : Bytes) {offset size : ℕ}
    (h : offset + size < 2 ^ 64) (hsize : size < 2 ^ 63) (s : σ) :
    ∃ bytes, (read allocation data offset size : Exec ε σ Bytes) s = (.ok bytes, s) ∧
      bytes.length = size ∧
      ∀ k < size, bytes.getD k 0 = ByteMap.ofBytes data (offset + k) := by
  unfold read addUsize
  by_cases hbeyond : data.length ≤ offset
  · rw [if_pos hbeyond, run_bind_of_ok (allocate_run hsize allocation s)]
    refine ⟨_, rfl, List.length_replicate, fun k hk => ?_⟩
    have hzeros := congrFun (ByteMap.ofBytes_append_zeros [] size) k
    rw [List.nil_append, ByteMap.ofBytes_nil] at hzeros
    rw [ByteMap.ofBytes_beyond (by omega)]
    exact hzeros
  · rw [if_neg hbeyond, if_pos h, Exec.pure_bind]
    obtain ⟨bytes, hresize, hlength, hmap⟩ := resize_spec (ε := ε) allocation
      ((data.drop offset).take (min (offset + size) data.length - offset)) hsize s
    refine ⟨bytes, hresize, ?_, fun k hk => ?_⟩
    · rw [hlength, List.length_take, List.length_drop]
      omega
    · refine Eq.trans (congrFun hmap k) ?_
      by_cases hinside : offset + k < data.length
      · rw [ByteMap.ofBytes_take (by omega), ByteMap.ofBytes_drop]
      · rw [ByteMap.ofBytes_beyond (by rw [List.length_take, List.length_drop]; omega),
          ByteMap.ofBytes_beyond (Nat.le_of_not_lt hinside)]

/-- A word is read where 32 bytes are. -/
theorem readWord_run {allocation : Allocation} {data bytes : Bytes} {offset : ℕ} {s : σ}
    (h : (read allocation data offset 32 : Exec ε σ Bytes) s = (.ok bytes, s))
    (hlength : bytes.length = 32) :
    (readWord allocation data offset : Exec ε σ Word) s = (.ok (Word.ofBytes bytes), s) := by
  unfold readWord
  rw [run_bind_of_ok h, if_pos hlength]
  rfl

end Memory

namespace MemoryCall

/-- The bytes after a write. -/
theorem run_written {data data' bytes : Bytes} {offset : ℕ}
    (h : (Memory.write .bounded data offset bytes : Exec Empty Bytes Bytes) data = (.ok data', data)) :
    (write offset bytes).run data = (.ok [], data') := by
  show ((Memory.write .bounded data offset bytes >>= fun data => (Exec.modify fun _ => data) >>= fun _ =>
    pure [] : Exec Empty Bytes Bytes)) data = _
  rw [run_bind_of_ok h]
  rfl

/-- What a call does to the bytes, and what it returns. -/
theorem run_spec {call : MemoryCall} (h : call.Fits) (data : Bytes) :
    ∃ bytes data', call.run data = (.ok bytes, data') ∧ data.length ≤ data'.length ∧
      ByteMap.ofBytes data' = call.effect (ByteMap.ofBytes data) ∧
      call.Answers (ByteMap.ofBytes data) bytes := by
  cases call with
  | read offset size =>
      obtain ⟨bytes, hread, hanswer⟩ := Memory.read_spec (ε := Empty) .bounded data h.1 h.2 data
      exact ⟨bytes, data, hread, le_rfl, rfl, hanswer⟩
  | readWord offset =>
      obtain ⟨bytes, hread, hlength, hanswer⟩ :=
        Memory.read_spec (ε := Empty) .bounded data h (by decide) data
      have hword := Memory.readWord_run hread hlength
      refine ⟨(Word.ofBytes bytes).toList, data, ?_, le_rfl, rfl, Vector.length_toList, ?_⟩
      · show (Memory.readWord .bounded data offset >>= fun word => pure word.toList :
          Exec Empty Bytes Bytes) data = _
        rw [run_bind_of_ok hword]
        rfl
      · intro k hk
        have hbyte : (Word.ofBytes bytes).toList.getD k 0 = bytes.getD k 0 := by
          unfold Word.ofBytes
          rw [List.getD_eq_getElem?_getD, Vector.getElem?_toList, Vector.getElem?_ofFn, dif_pos hk]
          rfl
        rw [hbyte, hanswer k hk]
  | write offset bytes =>
      obtain ⟨data', hwrite, hle, hmap⟩ := Memory.write_spec (ε := Empty) .bounded h data
      refine ⟨[], data', ?_, hle, hmap, rfl⟩
      exact run_written hwrite
  | writeWord offset word =>
      have hfits : offset + word.toList.length < 2 ^ 63 := by
        rw [Vector.length_toList]
        exact h
      obtain ⟨data', hwrite, hle, hmap⟩ := Memory.write_spec (ε := Empty) .bounded hfits data
      refine ⟨[], data', ?_, hle, hmap, rfl⟩
      exact run_written hwrite

theorem ofBytes_after {call : MemoryCall} (h : call.Fits) (data : Bytes) :
    ByteMap.ofBytes (call.after data) = call.effect (ByteMap.ofBytes data) := by
  obtain ⟨bytes, data', hrun, -, hmap, -⟩ := run_spec h data
  unfold after
  rw [hrun, ← hmap]

/-- The bytes after some calls have the contents that these have written. -/
theorem ofBytes_run {calls : List MemoryCall} (h : ∀ call ∈ calls, call.Fits) :
    ByteMap.ofBytes (Runs.run after [] calls) = contents calls := by
  have hrun : ∀ (data : Bytes) (m : ℕ → UInt8), ByteMap.ofBytes data = m →
      ByteMap.ofBytes (Runs.run after data calls) = Runs.run effect m calls := by
    induction calls with
    | nil => exact fun data m heq => heq
    | cons call rest ih =>
        intro data m heq
        rw [Runs.run_cons, Runs.run_cons]
        refine ih (fun c hc => h c (List.mem_cons_of_mem _ hc)) _ _ ?_
        rw [ofBytes_after (h call List.mem_cons_self), heq]
  exact hrun [] (fun _ => 0) ByteMap.ofBytes_nil

/-- The calls that read. -/
def IsRead : MemoryCall → Prop
  | read _ _ => True
  | readWord _ => True
  | write _ _ => False
  | writeWord _ _ => False

/-- A read leaves the bytes as they are. -/
theorem after_of_isRead {call : MemoryCall} (hread : call.IsRead) (h : call.Fits) (data : Bytes) :
    call.after data = data := by
  cases call with
  | read offset size =>
      obtain ⟨bytes, hrun, -⟩ := Memory.read_spec (ε := Empty) .bounded data h.1 h.2 data
      exact congrArg Prod.snd hrun
  | readWord offset =>
      obtain ⟨bytes, hrun, hlength, -⟩ :=
        Memory.read_spec (ε := Empty) .bounded data h (by decide) data
      have hword := Memory.readWord_run hrun hlength
      show ((Memory.readWord .bounded data offset >>= fun word => pure word.toList :
        Exec Empty Bytes Bytes) data).2 = data
      rw [run_bind_of_ok hword]
      rfl
  | write offset bytes => exact hread.elim
  | writeWord offset word => exact hread.elim

/-- **Memory is a map of bytes**: after any calls the next one succeeds, a read returns the bytes
that were last written at its addresses, the memory gets no shorter, and a read leaves it as it
is. -/
theorem memory_byteMap {calls : List MemoryCall} (h : ∀ call ∈ calls, call.Fits)
    {call : MemoryCall} (hcall : call.Fits) :
    (∃ bytes, (call.run (Runs.run after [] calls)).1 = .ok bytes ∧
      call.Answers (contents calls) bytes) ∧
    (Runs.run after [] calls).length ≤ (call.after (Runs.run after [] calls)).length ∧
    (call.IsRead → call.after (Runs.run after [] calls) = Runs.run after [] calls) := by
  obtain ⟨bytes, data', hrun, hle, -, hanswer⟩ := run_spec hcall (Runs.run after [] calls)
  rw [ofBytes_run h] at hanswer
  refine ⟨⟨bytes, ?_, hanswer⟩, ?_, fun hread => after_of_isRead hread hcall _⟩
  · rw [hrun]
  · show _ ≤ (call.run (Runs.run after [] calls)).2.length
    rw [hrun]
    exact hle

/-- Overlapping writes, and a read that ends behind the memory. -/
theorem memory_byteMap_overlap :
    ∃ bytes, ((read 1 4).run (Runs.run after [] [write 0 [1, 2, 3], write 2 [7]])).1 =
      .ok bytes ∧ (read 1 4).Answers (contents [write 0 [1, 2, 3], write 2 [7]]) bytes := by
  have hcalls : ∀ call ∈ [write 0 [1, 2, 3], write 2 [7]], call.Fits := by decide
  have hcall : (read 1 4).Fits := by decide
  exact (memory_byteMap hcalls hcall).1

/-- A read and a write whose ends are positions, and whose vectors are longer than `isize::MAX`. -/
theorem huge_memory_panics :
    (0 + 2 ^ 63 < 2 ^ 64 ∧ ((read 0 (2 ^ 63)).run []).1 = .panic) ∧
      (2 ^ 63 + [1].length < 2 ^ 64 ∧ ((write (2 ^ 63) [1]).run []).1 = .panic) := by
  refine ⟨⟨by decide, ?_⟩, by decide, ?_⟩
  · rfl
  · rfl

end MemoryCall
