import Columnlet.Proofs.Content
import Columnlet.Proofs.Files

/-! # Refused payloads

A payload is stored if there is room for it and refused if there is none. Its place is checked for
a length of 32 bits. A refusal by that check changes nothing; a payload so long that the check is
passed all the same is refused by the write, and by then its count has been reset. -/

namespace Columnlet

namespace Content

variable {n : Nat}

/-- The check refuses what lies outside the region by the low 32 bits of its length. -/
theorem putIn_of_unchecked {format : Format} {r : Region n} {offset : UInt64} {payload : Bytes}
    (h : n < offset.toNat + format.counterSize + payload.length % UInt32.size) :
    putIn format offset payload r =
      .error (outOfBounds n ⟨offset, .ofNat payload.length, none⟩) r := by
  have hplace := payloadAt_of_lt (n := n) (l := ⟨offset, .ofNat payload.length, none⟩)
    (by rwa [UInt32.toNat_ofNat'])
  rw [putIn]
  exact Attempt.bind_of_error (Attempt.ofExcept_eq_error_iff.mpr ⟨hplace, rfl⟩)

/-- A region after a payload for which it has no room: as it was, unless the payload takes 2^32
bytes or more and there is room for what is left of its length in 32 bits. -/
def Refused (format : Format) (r after : Region n) (offset : Nat) (payload : Bytes) : Prop :=
  if UInt32.size ≤ payload.length ∧
      offset + format.counterSize + payload.length % UInt32.size ≤ n then
    Cleared format r after offset
  else after = r

/-- What does not lie inside the region is refused. -/
theorem putIn_of_lt {format : Format} {r : Region n} {offset : UInt64} {payload : Bytes}
    (h : n < offset.toNat + extent format payload) :
    ∃ after, putIn format offset payload r =
        .error (outOfBounds n ⟨offset, .ofNat payload.length, none⟩) after ∧
      Refused format r after offset.toNat payload := by
  rw [extent] at h
  by_cases hchecked : offset.toNat + format.counterSize + payload.length % UInt32.size ≤ n
  · have hlong : UInt32.size ≤ payload.length := by
      refine Nat.le_of_not_lt fun hshort => ?_
      rw [Nat.mod_eq_of_lt (by omega)] at hchecked
      omega
    obtain ⟨cleared, hcleared, hput⟩ := putIn_of_checked (r := r) hchecked
    have hwrite : cleared.write? (offset.toNat + format.counterSize) payload = none :=
      Region.write?_eq_none_iff.mpr (by omega)
    refine ⟨cleared, hput.trans (Attempt.changes_eq_error_iff.mpr ⟨hwrite, rfl, rfl⟩), ?_⟩
    rw [Refused, if_pos ⟨hlong, hchecked⟩]
    exact hcleared
  · refine ⟨r, putIn_of_unchecked (by omega), ?_⟩
    rw [Refused, if_neg (fun hlong => hchecked hlong.2)]

/-- A payload is stored exactly if its last byte lies inside the window, in exact arithmetic. One
shorter than 2^32 bytes that is refused leaves every byte as it is, and so does one whose length
without the bits from the 33rd on does not fit either. Any other resets the count at its offset in
the current layout, and changes nothing else. -/
theorem put_outcome (c : Content) (files : Files) (offset : UInt64) (payload : Bytes) :
    if offset.toNat + extent c.format payload ≤ c.mapping.size then
      ∃ after, c.put offset payload files = .ok () after ∧
        Files.BytesOnly c.mapping files after ∧
        Shown c.format (after.view c.mapping) offset.toNat payload 0 ∧
        ∀ i, i < offset.toNat ∨ offset.toNat + extent c.format payload ≤ i →
          (after.view c.mapping).get i = (files.view c.mapping).get i
    else
      ∃ after, c.put offset payload files =
          .error (outOfBounds c.mapping.size ⟨offset, .ofNat payload.length, none⟩) after ∧
        Files.BytesOnly c.mapping files after ∧
        Refused c.format (files.view c.mapping) (after.view c.mapping) offset.toNat payload := by
  split
  case isTrue hroom =>
    obtain ⟨r, hput, hshown, hframe⟩ := putIn_of_le (r := files.view c.mapping) hroom
    refine ⟨_, Mapping.attempt_of_ok hput, Files.bytesOnly_commit files c.mapping r, ?_⟩
    rw [Files.view_commit_self]
    exact ⟨hshown, hframe⟩
  case isFalse hroom =>
    obtain ⟨r, hput, hrefused⟩ := putIn_of_lt (r := files.view c.mapping) (Nat.lt_of_not_le hroom)
    refine ⟨_, Mapping.attempt_of_error hput, Files.bytesOnly_commit files c.mapping r, ?_⟩
    rw [Files.view_commit_self]
    exact hrefused

/-- A content file of eight bytes, the first four of which count one access. -/
def samplePadded : Content := ⟨⟨"content", ["content"], 8⟩, .current⟩

def samplePaddedFiles : Files := Files.empty.put ["content"] (.ofBytes [1] 8)

/-- There is no room for a payload of 2^32 bytes in eight, and yet the count is lost. -/
theorem accessCount?_of_refused :
    ∃ after, samplePadded.put 0 (List.replicate UInt32.size 0) samplePaddedFiles =
        .error (outOfBounds 8 ⟨0, 0, none⟩) after ∧
      samplePadded.accessCount? samplePaddedFiles 0 = some 1 ∧
      samplePadded.accessCount? after 0 = some 0 := by
  have hlost {payload : Bytes} (hlength : payload.length = UInt32.size) :
      ∃ after, samplePadded.put 0 payload samplePaddedFiles =
          .error (outOfBounds 8 ⟨0, 0, none⟩) after ∧
        samplePadded.accessCount? samplePaddedFiles 0 = some 1 ∧
        samplePadded.accessCount? after 0 = some 0 := by
    have hroom : 8 < (0 : UInt64).toNat + extent .current payload := by
      rw [extent, hlength]
      decide
    obtain ⟨r, hput, hrefused⟩ := putIn_of_lt
      (r := samplePaddedFiles.view samplePadded.mapping) hroom
    rw [Refused, hlength, if_pos (by decide)] at hrefused
    rw [hlength] at hput
    refine ⟨_, Mapping.attempt_of_error hput, by decide +kernel, ?_⟩
    rw [accessCount?, Files.view_commit_self]
    exact hrefused.1
  exact hlost List.length_replicate

end Content

end Columnlet
