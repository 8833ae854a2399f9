import Columnlet.Proofs.Content
import Columnlet.Proofs.Files

/-! # Accesses of payloads

The place of a payload is checked once, before anything is read or written. Behind the check neither
the count nor the copy can fail, so an access does all of its work or leaves every byte as it is. -/

namespace Columnlet

namespace Content

variable {n : Nat} {format : Format} {r : Region n} {l : Locator}

/-! ## The check -/

theorem payloadAt_eq_ok_iff {start : Nat} :
    payloadAt format n l = .ok start ↔
      l.offset.toNat + format.counterSize = start ∧ start + l.length.toNat ≤ n := by
  by_cases h : l.offset.toNat + format.counterSize + l.length.toNat ≤ n
  · rw [payloadAt_of_le h, Except.ok.injEq]
    constructor
    · rintro rfl
      exact ⟨rfl, h⟩
    · exact And.left
  · rw [payloadAt_of_lt (Nat.lt_of_not_le h)]
    constructor
    · intro hok
      cases hok
    · rintro ⟨rfl, hroom⟩
      exact absurd hroom h

theorem payloadIn?_of_le
    (h : l.offset.toNat + format.counterSize + l.length.toNat ≤ n) :
    payloadIn? format r l =
      some (r.memory.read (l.offset.toNat + format.counterSize) l.length.toNat) := if_pos h

theorem payloadIn?_of_lt
    (h : n < l.offset.toNat + format.counterSize + l.length.toNat) :
    payloadIn? format r l = none := if_neg (Nat.not_le.mpr h)

/-- Behind the check an access can be counted, if the layout counts it, and the payload copied, in
whatever state the region is then. -/
theorem isSome_of_payloadAt {start : Nat} (h : payloadAt format n l = .ok start) (r : Region n) :
    (0 < format.counterSize → (r.bump? l.offset.toNat).isSome) ∧
      (r.read? start l.length.toNat).isSome := by
  obtain ⟨rfl, hroom⟩ := payloadAt_eq_ok_iff.mp h
  refine ⟨fun hcounts => ?_, ?_⟩
  · apply Region.bump?_isSome_iff.mpr
    cases format with
    | current =>
        rw [Format.counterSize] at hroom
        omega
    | legacy => cases hcounts
  · exact (Region.read?_isSome_iff ..).mpr hroom

/-! ## An access -/

/-- An access is refused exactly if the last byte of the payload does not lie inside the window, in
exact arithmetic, and then no file changes. Otherwise it answers the bytes of the payload as they
were; in the current layout the four bytes of the count in front of it are bumped, and no other byte
changes. Once the place has been checked, no later step can fail. -/
theorem read_outcome (c : Content) (files : Files) (l : Locator) :
    (if l.offset.toNat + c.format.counterSize + l.length.toNat ≤ c.mapping.size then
      ∃ after, c.read l files = .ok ((files.view c.mapping).memory.read
          (l.offset.toNat + c.format.counterSize) l.length.toNat) after ∧
        Files.BytesOnly c.mapping files after ∧
        Touched c.format (files.view c.mapping) (after.view c.mapping) l.offset.toNat ∧
        ∀ i, i < l.offset.toNat ∨ l.offset.toNat + c.format.counterSize ≤ i →
          (after.view c.mapping).get i = (files.view c.mapping).get i
    else
      ∃ after, c.read l files = .error (outOfBounds c.mapping.size l) after ∧
        ∀ place, after.file place = files.file place) ∧
    ∀ start, payloadAt c.format c.mapping.size l = .ok start → ∀ r : Region c.mapping.size,
      (0 < c.format.counterSize → (r.bump? l.offset.toNat).isSome) ∧
        (r.read? start l.length.toNat).isSome := by
  refine ⟨?_, fun start => isSome_of_payloadAt⟩
  split
  case isTrue hroom =>
    obtain ⟨r, hread, htouched⟩ := readIn_of_payloadIn? (payloadIn?_of_le hroom)
    refine ⟨_, Mapping.attempt_of_ok hread, Files.bytesOnly_commit files c.mapping r, ?_⟩
    rw [Files.view_commit_self]
    exact ⟨htouched, fun i => htouched.get_of_outside⟩
  case isFalse hroom =>
    have hread := readIn_of_payloadIn?_eq_none (r := files.view c.mapping)
      (payloadIn?_of_lt (Nat.lt_of_not_le hroom))
    exact ⟨_, Mapping.attempt_of_error hread, Files.file_commit_view files c.mapping⟩

/-- A content file of 13 bytes, which ends in the payload "ab" behind a count that reaches over two
words and is about to wrap. -/
def sampleOdd : Content := ⟨⟨"content", ["content"], 13⟩, .current⟩

def sampleOddFiles : Files := Files.empty.put ["content"]
  (.ofBytes (List.replicate 7 0 ++ [0xff, 0xff, 0xff, 0xff, 0x61, 0x62]) 13)

theorem read_outcome_sample :
    (∃ after, sampleOdd.read ⟨7, 2, none⟩ sampleOddFiles = .ok [0x61, 0x62] after ∧
      sampleOdd.accessCount? after 7 = some 0) ∧
    (∃ after, sampleOdd.read ⟨8, 2, none⟩ sampleOddFiles =
        .error (outOfBounds 13 ⟨8, 2, none⟩) after ∧
      ∀ place, after.file place = sampleOddFiles.file place) ∧
    ∀ r : Region 13, (r.bump? 7).isSome ∧ (r.read? 11 2).isSome := by
  obtain ⟨hread, hsteps⟩ := read_outcome sampleOdd sampleOddFiles ⟨7, 2, none⟩
  obtain ⟨hrefused, -⟩ := read_outcome sampleOdd sampleOddFiles ⟨8, 2, none⟩
  rw [if_pos (by decide)] at hread
  rw [if_neg (by decide)] at hrefused
  obtain ⟨after, hok, -, ⟨count, hbumped⟩, -⟩ := hread
  have hpayload : (sampleOddFiles.view sampleOdd.mapping).memory.read 11 2 = [0x61, 0x62] := by
    decide +kernel
  have hbefore : (sampleOddFiles.view sampleOdd.mapping).counter? 7 = some 0xffffffff := by
    decide +kernel
  obtain rfl : count = 0xffffffff := Option.some.inj (hbumped.before.symm.trans hbefore)
  refine ⟨⟨after, hpayload ▸ hok, hbumped.after⟩, hrefused, fun r => ?_⟩
  obtain ⟨hcount, hcopy⟩ := hsteps 11 rfl r
  exact ⟨hcount (by decide), hcopy⟩

end Content

end Columnlet
