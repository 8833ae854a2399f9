import Columnlet.Proofs.Bus.Sending

/-! # The geometry of records

A bus opens only where the end of its first record is a number of 64 bits that the window reaches,
so a record has room for its header and the longest payload, and a payload that is sent is stored
whole. The length in front of it has 32 bits, though: of a longer payload a reader is answered what
these leave. -/

namespace Columnlet

namespace Bus

variable {n count : Nat} {path : String} {l : Location} {fileSize recordSize : UInt64}
  {files after : Files} {b : Bus} {r s : Region n} {payload : Bytes}

/-! ## Opening -/

/-- The bytes from one record to the next are whole words that hold a header and the longest
payload, with less than a word to spare, and the window holds the limit and one record. All sums are
exact. -/
structure Exact (b : Bus) : Prop where
  aligned : b.stride % 8 = 0
  covers : recordHeaderSize + b.recordSize.toNat ≤ b.stride
  tight : b.stride ≤ recordHeaderSize + b.recordSize.toNat + 7
  room : headerSize + b.stride ≤ b.mapping.size

theorem Grid.exact (hg : Grid b.mapping.size b.recordSize) : b.Exact := by
  have hstride : b.stride = (recordHeaderSize + b.recordSize.toNat + 7) / 8 * 8 := rfl
  refine ⟨?_, ?_, ?_, hg.room⟩ <;> omega

/-- A record size for which a sum would not be a number of 64 bits opens no bus. -/
theorem exact_of_openFile (h : openFile path fileSize recordSize files = .ok b after) :
    b.Exact := by
  obtain ⟨l, rfl, hg⟩ := openFile_eq_ok h
  exact hg.exact

/-! ## Sending -/

theorem Reserved.accepted (hg : Grid n recordSize) (h : Reserved r recordSize count)
    (hsend : sendIn recordSize (strideOf recordSize) payload r = .ok () s) :
    Accepted r s recordSize count payload := by
  rcases sendIn_cases hg h.limit payload with ⟨-, hfail⟩ | ⟨-, -, hfail⟩ | ⟨after, hok, haccepted⟩
  · cases hfail.symm.trans hsend
  · cases hfail.symm.trans hsend
  · cases hok.symm.trans hsend
    exact haccepted

/-- The record of a payload is there with all of its bytes, and the limit behind it. -/
structure Whole (b : Bus) (files : Files) (record : Nat) (payload : Bytes) : Prop where
  bytes : (files.view b.mapping).Holds record (recordBytes payload)
  limit : record + b.stride ≤ (limitIn (files.view b.mapping)).toNat

/-- A reader of a bus, by whatever name, stands at a record. -/
structure StandsAt (reader : BusReader) (b : Bus) (record : Nat) : Prop where
  location : reader.bus.mapping.location = b.mapping.location
  size : reader.bus.mapping.size = b.mapping.size
  recordSize : reader.bus.recordSize = b.recordSize
  position : reader.cursor.position = record

/-- What has become of a payload that has been sent: it fits its record, nothing is cut off its
frame, and its record is whole. As long as it is, a reader that stands there is answered it, all of
it exactly if its length is a number of 32 bits. -/
structure Sent (b : Bus) (payload : Bytes) (after : Files) (record : Nat) : Prop where
  short : payload.length ≤ b.recordSize.toNat
  fits : recordHeaderSize + payload.length ≤ b.stride
  framed : frame b.stride payload =
    Bytes.littleEndian 4 0 ++ Bytes.littleEndian 4 payload.length ++ payload ++
      List.replicate (b.stride - recordHeaderSize - payload.length) 0
  whole : b.Whole after record payload
  answer : ∀ later, b.Whole later record payload → ∀ reader, StandsAt reader b record → ∀ now,
    (reader.poll now later).1 = some (payload.take (payload.length % UInt32.size)) ∧
      ((reader.poll now later).1 = some payload ↔ payload.length < UInt32.size)

theorem take_length_mod_eq_self_iff :
    payload.take (payload.length % UInt32.size) = payload ↔ payload.length < UInt32.size := by
  have hmod := Nat.mod_lt payload.length (show 0 < UInt32.size by decide)
  constructor
  · intro h
    have hlength := congrArg List.length h
    rw [List.length_take] at hlength
    omega
  · intro h
    rw [Nat.mod_eq_of_lt h, List.take_length]

/-- A reader that stands at a whole record is answered it. -/
theorem Whole.poll {record : Nat}
    (haligned : record % 4 = 0) (hlen : payload.length ≤ b.recordSize.toNat)
    (h : b.Whole files record payload) {reader : BusReader} (hstands : StandsAt reader b record)
    (now : Nat) :
    (reader.poll now files).1 = some (payload.take (payload.length % UInt32.size)) := by
  obtain ⟨⟨⟨path, l, n⟩, size⟩, timeout, c⟩ := reader
  obtain ⟨⟨name, place, width⟩, recordSize⟩ := b
  obtain ⟨rfl, rfl, rfl, rfl⟩ := hstands
  have hlook := look_of_holds timeout now haligned hlen h.bytes h.limit
  exact congrArg Prod.fst (pollIn_of_record hlook)

end Bus

namespace Senders

open Bus

variable {l : Location} {fileSize recordSize : UInt64} {t : Senders} {b : Bus} {payload : Bytes}
  {after : Files}

/-- A payload that a writer has sent stands whole in the record that was at the limit. -/
theorem Inv.sent (h : Inv l fileSize recordSize t) (hb : b ∈ t.writers)
    (hsend : b.send payload t.files = .ok () after) :
    b.Sent payload after (limitIn (t.files.view b.mapping)).toNat := by
  obtain ⟨hg, ⟨count, hreserved⟩, hwriters⟩ := h
  obtain ⟨path, rfl⟩ := hwriters b hb
  obtain ⟨s, hin, rfl⟩ := Mapping.attempt_eq_ok_iff.mp hsend
  have haccepted := hreserved.accepted hg hin
  have hlen := haccepted.short
  have hbefore : (limitIn (t.files.view ⟨path, l, fileSize.toNat⟩)).toNat =
      slotAt recordSize count := hreserved.limit
  have hmod := slotAt_mod recordSize count
  have hexact := Grid.exact (b := ⟨⟨path, l, fileSize.toNat⟩, recordSize⟩) hg
  rw [hbefore]
  refine ⟨hlen, ?_, frame_eq hlen, ⟨?_, ?_⟩, ?_⟩
  · exact Nat.le_trans (Nat.add_le_add_left hlen _) hexact.covers
  · rw [Files.view_commit_self]
    exact haccepted.record
  · rw [Files.view_commit_self, haccepted.limit, slotAt_succ]
    exact Nat.le_refl _
  · intro later hwhole reader hstands now
    rw [hwhole.poll (by omega) hlen hstands now]
    exact ⟨rfl, by rw [Option.some.injEq, take_length_mod_eq_self_iff]⟩

/-- A bus that can be opened has exact records. Every payload that any of its writers sends is
stored whole and answered, and all of it is answered if and only if its length is a number of 32
bits. -/
theorem exact_and_whole (recordSize : UInt64) :
    (∀ path fileSize files b after, openFile path fileSize recordSize files = .ok b after →
      b.Exact) ∧
    ∀ l fileSize t, Reached l fileSize recordSize t → ∀ b ∈ t.writers, ∀ payload after,
      b.send payload t.files = .ok () after →
        b.Sent payload after (limitIn (t.files.view b.mapping)).toNat := by
  refine ⟨fun _ _ _ _ _ => exact_of_openFile, ?_⟩
  intro l fileSize t ht b hb payload after hsend
  exact ht.inv.sent hb hsend

open Traffic (sampleBus sampleFiles)

theorem exact_and_whole_sample :
    sampleBus.Exact ∧ ∃ after, sampleBus.send [1, 2, 3] sampleFiles = .ok () after ∧
      ((BusReader.mk sampleBus 0 .start).poll 0 after).1 = some [1, 2, 3] := by
  obtain ⟨hopening, hsending⟩ := exact_and_whole 4
  have hopen : openWriter "bus" 24 4 false .empty = .ok sampleBus sampleFiles :=
    Attempt.eq_ok_of_perform (by decide +kernel)
  obtain ⟨opened, hfile, -⟩ := openFile_of_openWriter hopen
  refine ⟨hopening _ _ _ _ _ hfile, ?_⟩
  have hstart : Reached ["bus"] 24 4 ⟨sampleFiles, [sampleBus]⟩ :=
    .opened .empty sampleFiles "bus" false sampleBus hopen rfl
  have hsend : sampleBus.send [1, 2, 3] sampleFiles =
      .ok () ((sampleBus.send [1, 2, 3]).perform sampleFiles).2 :=
    Attempt.eq_ok_of_perform (by decide +kernel)
  have hsent := hsending ["bus"] 24 _ hstart sampleBus (List.mem_singleton_self _) _ _ hsend
  have hlimit : (limitIn (sampleFiles.view sampleBus.mapping)).toNat = 8 := by decide +kernel
  rw [hlimit] at hsent
  exact ⟨_, hsend, (hsent.answer _ hsent.whole _ ⟨rfl, rfl, rfl, rfl⟩ 0).2.mpr (by decide)⟩

/-- A bus with room for one record, of a payload whose length takes 33 bits. -/
def sampleWide : Bus := ⟨⟨"mq", ["mq"], 4294967320⟩, 4294967296⟩

/-- The files once that bus has been opened for writing. -/
def sampleWideFiles : Files :=
  ((openWriter "mq" 4294967320 4294967296 false).perform .empty).2

/-- The shortest payload whose length is no number of 32 bits, all zeros. -/
def sampleWidePayload : Bytes := List.replicate UInt32.size 0

/-- The low 32 bits of that length are zero. So the payload is sent and stored whole, and a reader
is answered no bytes. -/
theorem cut_of_wide :
    openWriter "mq" 4294967320 4294967296 false .empty = .ok sampleWide sampleWideFiles ∧
      sampleWidePayload ≠ [] ∧
      ∃ after, sampleWide.send sampleWidePayload sampleWideFiles = .ok () after ∧
        sampleWide.Whole after headerSize sampleWidePayload ∧
        ((BusReader.mk sampleWide defaultTimeout .start).poll 0 after).1 = some [] := by
  have hopen : openWriter "mq" 4294967320 4294967296 false .empty =
      .ok sampleWide sampleWideFiles := Attempt.eq_ok_of_perform (by decide +kernel)
  have hinv : Inv ["mq"] 4294967320 4294967296 ⟨sampleWideFiles, [sampleWide]⟩ :=
    (Reached.opened .empty _ "mq" false _ hopen rfl).inv
  have hlimit : (limitIn (sampleWideFiles.view sampleWide.mapping)).toNat = headerSize := by
    decide +kernel
  have hlength : sampleWidePayload.length = UInt32.size := List.length_replicate
  have hreserved : Reserved (sampleWideFiles.region ["mq"] (4294967320 : UInt64).toNat)
      4294967296 0 := ⟨hlimit.trans (slotAt_zero _).symm, by decide⟩
  refine ⟨hopen, List.ne_nil_of_length_pos (by rw [hlength]; decide), ?_⟩
  rcases send_cases "mq" hinv.grid hreserved.limit sampleWidePayload with
    ⟨e, -, -, hverdict, -⟩ | ⟨after, hsend, -⟩
  · rw [verdict, if_neg (by rw [hlength]; decide), if_pos (by decide)] at hverdict
    cases hverdict
  · have hsent := hinv.sent (List.mem_singleton_self _) hsend
    rw [hlimit] at hsent
    refine ⟨after, hsend, hsent.whole, ?_⟩
    rw [(hsent.answer after hsent.whole _ ⟨rfl, rfl, rfl, rfl⟩ 0).1, hlength, Nat.mod_self,
      List.take_zero]

end Senders

end Columnlet
