/-
# Messages on a byte stream

The read branch and the write branch of the message loop of `src/network/p2p.rs`.  Messages are
written one after the other, without their lengths; every read is taken for one message.

`bincode` reads the message at the front of a string, with texts that are valid UTF-8, and ignores
what follows it (`LawfulMessageCodec`).  A read that holds several messages passes on the first one
only, and one that holds a part of a message passes on nothing.  So all messages arrive only if
every read holds exactly one of them (`passes_all_iff`).
-/
import Pacyte.MessageBytes

/-- What the network takes from `bincode`. -/
class MessageCodec where
  /-- `NetworkMessage::to_bytes`. -/
  toBytes : WireMessage → Bytes
  /-- `NetworkMessage::from_bytes`. -/
  fromBytes : Bytes → Option WireMessage

/-- A message is read back from the front of a string, and what follows it is ignored. -/
class LawfulMessageCodec extends MessageCodec where
  toBytes_ne_nil : ∀ m, toBytes m ≠ []
  fromBytes_iff : ∀ bytes m, bytes.length < 2 ^ 64 →
    (fromBytes bytes = some m ↔ toBytes m <+: bytes)

namespace MessageStream

open MessageCodec LawfulMessageCodec

/-- The write branch: what is written for the messages of the queue. -/
def written [MessageCodec] (ms : List WireMessage) : Bytes := (ms.map toBytes).flatten

/-- The read branch: the messages that are passed to `handle_message`, up to the read of length 0
that ends the loop. -/
def passed [MessageCodec] : List Bytes → List WireMessage
  | [] => []
  | read :: reads =>
      if read.isEmpty then []
      else
        match fromBytes read with
        | some m => m :: passed reads
        | none => passed reads

variable [LawfulMessageCodec]

theorem passed_cons_some {read : Bytes} (hread : read ≠ []) {m : WireMessage}
    (hm : fromBytes read = some m) (reads : List Bytes) :
    passed (read :: reads) = m :: passed reads := by
  rw [passed, if_neg (by rwa [List.isEmpty_iff]), hm]

theorem passed_cons_none {read : Bytes} (hread : read ≠ []) (hm : fromBytes read = none)
    (reads : List Bytes) : passed (read :: reads) = passed reads := by
  rw [passed, if_neg (by rwa [List.isEmpty_iff]), hm]

/-- The messages that are passed on are not longer than the reads, and if they are as long, every
read is one message. -/
theorem length_written_passed {reads : List Bytes}
    (hreads : ∀ read ∈ reads, read ≠ [] ∧ read.length < 2 ^ 64) :
    (written (passed reads)).length ≤ reads.flatten.length ∧
      (reads.flatten.length ≤ (written (passed reads)).length →
        reads = (passed reads).map toBytes) := by
  induction reads with
  | nil => exact ⟨Nat.le_refl _, fun _ => rfl⟩
  | cons read reads ih =>
      obtain ⟨hne, hlen⟩ := hreads read List.mem_cons_self
      obtain ⟨hle, heq⟩ := ih fun read' h => hreads read' (List.mem_cons_of_mem _ h)
      have hpos := List.length_pos_iff.mpr hne
      cases hm : fromBytes read with
      | none =>
          rw [passed_cons_none hne hm, List.flatten_cons, List.length_append]
          exact ⟨by omega, fun h => absurd h (by omega)⟩
      | some m =>
          have hprefix := (fromBytes_iff read m hlen).mp hm
          have hmle := hprefix.length_le
          have hwritten : (written (m :: passed reads)).length
              = (toBytes m).length + (written (passed reads)).length := by
            rw [written, List.map_cons, List.flatten_cons, List.length_append]
            rfl
          rw [passed_cons_some hne hm, List.flatten_cons, List.length_append, hwritten]
          refine ⟨by omega, fun h => ?_⟩
          have hread : toBytes m = read := hprefix.eq_of_length (by omega)
          rw [List.map_cons, hread, ← heq (by omega)]

/-- Reads of one message each. -/
theorem passed_map_toBytes {ms : List WireMessage}
    (hlen : ∀ m ∈ ms, (toBytes m).length < 2 ^ 64) : passed (ms.map toBytes) = ms := by
  induction ms with
  | nil => rfl
  | cons m ms ih =>
      have hm : fromBytes (toBytes m) = some m :=
        (fromBytes_iff _ _ (hlen m List.mem_cons_self)).mpr List.prefix_rfl
      rw [List.map_cons, passed_cons_some (toBytes_ne_nil m) hm,
        ih fun m' h => hlen m' (List.mem_cons_of_mem _ h)]

/-- **When all messages arrive**: for every way in which the written bytes are split into reads,
exactly the written messages are passed on, in their order, if and only if every read is the
encoding of one message. -/
theorem passes_all_iff {maxMessageSize : ℕ} (hmax : maxMessageSize < 2 ^ 64)
    (ms : List WireMessage) (reads : List Bytes)
    (hfit : ∀ m ∈ ms, (toBytes m).length ≤ maxMessageSize)
    (hreads : ∀ read ∈ reads, read ≠ [] ∧ read.length ≤ maxMessageSize)
    (hstream : reads.flatten = written ms) :
    passed reads = ms ↔ reads = ms.map toBytes := by
  constructor
  · intro hpassed
    have hlength := (length_written_passed fun read h =>
      ⟨(hreads read h).1, (hreads read h).2.trans_lt hmax⟩).2
    rw [hpassed, hstream] at hlength
    exact hlength (Nat.le_refl _)
  · rintro rfl
    exact passed_map_toBytes fun m hm => (hfit m hm).trans_lt hmax

end MessageStream

/-! ## Two messages in one read -/

namespace MessageStream

/-- The layout of `bincode`. -/
noncomputable scoped instance bincode : LawfulMessageCodec where
  toBytes := WireMessage.encode
  fromBytes := WireMessage.decode
  toBytes_ne_nil := WireMessage.encode_ne_nil
  fromBytes_iff _ _ hlen := WireMessage.decode_eq_some hlen

/-- A read for each of two messages. -/
theorem two_reads_pass :
    passed [WireMessage.encode (.ping 1), WireMessage.encode (.ping 2)] = [.ping 1, .ping 2] := by
  have hmax : 16777216 < 2 ^ 64 := by norm_num
  exact (passes_all_iff hmax [.ping 1, .ping 2] _ (by decide) (by decide) rfl).mpr rfl

/-- **Of two messages in one read the second is lost.** -/
theorem joined_read_loses :
    [WireMessage.encode (.ping 1) ++ WireMessage.encode (.ping 2)].flatten
        = written [.ping 1, .ping 2] ∧
      passed [WireMessage.encode (.ping 1) ++ WireMessage.encode (.ping 2)]
        ≠ [.ping 1, .ping 2] := by
  refine ⟨rfl, ?_⟩
  have hdecode : MessageCodec.fromBytes
      (WireMessage.encode (.ping 1) ++ WireMessage.encode (.ping 2)) = some (.ping 1) :=
    (LawfulMessageCodec.fromBytes_iff _ _ (by decide)).mpr (List.prefix_append _ _)
  have hpassed := passed_cons_some (by decide) hdecode []
  rw [hpassed]
  exact fun h => by cases (List.cons.inj h).2

end MessageStream
