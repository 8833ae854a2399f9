import Columnlet.Content
import Columnlet.Proofs.Attempt
import Columnlet.Proofs.Region.Counter

/-! # Payloads

A payload that lies inside its region is answered as it stands, and nothing but its own count of
accesses changes; one that does not is refused, and nothing changes. -/

namespace Columnlet

namespace Content

variable {n : Nat}

/-- The payload of an entry, if all of it lies inside the region. -/
def payloadIn? (format : Format) (r : Region n) (l : Locator) : Option Bytes :=
  r.read? (l.offset.toNat + format.counterSize) l.length.toNat

/-- A region after an access of the entry at an offset: in the current layout its count has been
bumped, and no other byte differs. -/
def Touched (format : Format) (r after : Region n) (offset : Nat) : Prop :=
  match format with
  | .current => ∃ count, r.Bumped after offset count
  | .legacy => after = r

theorem Touched.get_of_outside {format : Format} {r after : Region n} {offset i : Nat}
    (h : Touched format r after offset)
    (hi : i < offset ∨ offset + format.counterSize ≤ i) : after.get i = r.get i := by
  cases format with
  | current =>
      obtain ⟨count, hbumped⟩ := h
      exact hbumped.frame i hi
  | legacy =>
      cases h
      rfl

/-! ## Reading -/

theorem payloadAt_of_le {format : Format} {l : Locator}
    (h : l.offset.toNat + format.counterSize + l.length.toNat ≤ n) :
    payloadAt format n l = .ok (l.offset.toNat + format.counterSize) := if_pos h

theorem payloadAt_of_lt {format : Format} {l : Locator}
    (h : n < l.offset.toNat + format.counterSize + l.length.toNat) :
    payloadAt format n l = .error (outOfBounds n l) := if_neg (Nat.not_le.mpr h)

/-- An access of a payload inside the region answers it and counts. -/
theorem readIn_of_payloadIn? {format : Format} {r : Region n} {l : Locator} {payload : Bytes}
    (h : payloadIn? format r l = some payload) :
    ∃ after, readIn format l r = .ok payload after ∧ Touched format r after l.offset.toNat := by
  have hbound : l.offset.toNat + format.counterSize + l.length.toNat ≤ n :=
    (Region.read?_isSome_iff r _ _).mp (by rw [← payloadIn?, h]; rfl)
  have hplace : (Attempt.ofExcept (payloadAt format n l) : Attempt (Region n) Nat) r =
      .ok (l.offset.toNat + format.counterSize) r := by
    rw [payloadAt_of_le hbound]
    rfl
  rw [readIn, Attempt.bind_of_ok hplace]
  cases format with
  | current =>
      obtain ⟨count, after, hbump, hbumped⟩ :=
        r.bump?_spec l.offset.toNat (by simp only [Format.counterSize] at hbound; omega)
      have hpayload : after.read? (l.offset.toNat + Format.current.counterSize) l.length.toNat =
          some payload := by
        rw [← h, payloadIn?]
        refine Region.read?_congr ?_
        intro i hi _
        exact hbumped.frame i (.inr (by simpa [Format.counterSize] using hi))
      refine ⟨after, ?_, count, hbumped⟩
      have hchanges : Attempt.changes (fun s : Region n => (s.bump? l.offset.toNat).map (·.2))
          (outOfBounds n l) r = .ok () after := by
        rw [Attempt.changes_eq_ok_iff, hbump]
        rfl
      rw [if_pos (by decide), Attempt.bind_of_ok hchanges]
      simp only [Attempt.asks, hpayload]
  | legacy =>
      refine ⟨r, ?_, rfl⟩
      rw [payloadIn?] at h
      rw [if_neg (by decide)]
      simp only [Attempt.asks, h]

theorem readIn_of_payloadIn?_eq_none {format : Format} {r : Region n} {l : Locator}
    (h : payloadIn? format r l = none) : readIn format l r = .error (outOfBounds n l) r := by
  have hbound : n < l.offset.toNat + format.counterSize + l.length.toNat := by
    rw [payloadIn?, Region.read?] at h
    split at h
    · cases h
    · omega
  have hplace : (Attempt.ofExcept (payloadAt format n l) : Attempt (Region n) Nat) r =
      .error (outOfBounds n l) r := by
    rw [payloadAt_of_lt hbound]
    rfl
  rw [readIn, Attempt.bind_of_error hplace]

/-! ## Entries -/

/-- How many bytes an entry takes. -/
def extent (format : Format) (payload : Bytes) : Nat := format.counterSize + payload.length

/-- A region shows a payload at an offset, accessed a count of times as far as the layout tells. -/
structure Shown (format : Format) (r : Region n) (offset : Nat) (payload : Bytes)
    (count : UInt32) : Prop where
  held : r.Holds (offset + format.counterSize) payload
  counted : format = .current → r.counter? offset = some count

theorem Shown.congr {format : Format} {r s : Region n} {offset : Nat} {payload : Bytes}
    {count : UInt32} (h : Shown format r offset payload count)
    (same : ∀ i, offset ≤ i → i < offset + extent format payload → s.get i = r.get i) :
    Shown format s offset payload count := by
  refine ⟨h.held.congr ?_, ?_⟩
  · intro i hlow hhigh
    exact same i (by omega) (by rw [extent]; omega)
  · intro hformat
    rw [← h.counted hformat]
    refine Region.counter?_congr ?_
    intro i hlow hhigh
    exact same i hlow (by rw [extent, hformat, Format.counterSize]; omega)

theorem Shown.touch {format : Format} {r after : Region n} {offset : Nat} {payload : Bytes}
    {count : UInt32} (h : Shown format r offset payload count)
    (ht : Touched format r after offset) : Shown format after offset payload (count + 1) := by
  cases format with
  | legacy =>
      cases ht
      exact ⟨h.held, fun hformat => nomatch hformat⟩
  | current =>
      obtain ⟨before, hbumped⟩ := ht
      have hbefore : before = count := by
        have hcount := h.counted rfl
        rw [hbumped.before] at hcount
        exact Option.some.inj hcount
      cases hbefore
      refine ⟨h.held.congr ?_, fun _ => hbumped.after⟩
      intro i hlow _
      exact hbumped.frame i (.inr hlow)

theorem payloadIn?_of_shown {format : Format} {r : Region n} {l : Locator} {payload : Bytes}
    {count : UInt32} (h : Shown format r l.offset.toNat payload count)
    (hlen : l.length.toNat = payload.length) : payloadIn? format r l = some payload := by
  rw [payloadIn?, hlen]
  exact h.held

/-! ## Storing -/

/-- A region in which an entry at an offset is about to be stored: in the current layout its count
is zero, and no other byte differs. -/
def Cleared (format : Format) (r after : Region n) (offset : Nat) : Prop :=
  match format with
  | .current => after.counter? offset = some 0 ∧
      ∀ i, i < offset ∨ offset + 4 ≤ i → after.get i = r.get i
  | .legacy => after = r

theorem Cleared.get_of_outside {format : Format} {r after : Region n} {offset i : Nat}
    (h : Cleared format r after offset)
    (hi : i < offset ∨ offset + format.counterSize ≤ i) : after.get i = r.get i := by
  cases format with
  | current => exact h.2 i hi
  | legacy =>
      cases h
      rfl

/-- What `putIn` makes of a payload that lies inside the region by the low 32 bits of its length. -/
theorem putIn_of_checked {format : Format} {r : Region n} {offset : UInt64} {payload : Bytes}
    (h : offset.toNat + format.counterSize + payload.length % UInt32.size ≤ n) :
    ∃ cleared, Cleared format r cleared offset.toNat ∧
      putIn format offset payload r =
        Attempt.changes (·.write? (offset.toNat + format.counterSize) payload)
          (outOfBounds n ⟨offset, .ofNat payload.length, none⟩) cleared := by
  have hplace : (Attempt.ofExcept (payloadAt format n ⟨offset, .ofNat payload.length, none⟩) :
      Attempt (Region n) Nat) r = .ok (offset.toNat + format.counterSize) r := by
    rw [payloadAt_of_le (by rwa [UInt32.toNat_ofNat'])]
    rfl
  rw [putIn, Attempt.bind_of_ok hplace]
  cases format with
  | current =>
      rw [Format.counterSize] at h
      obtain ⟨cleared, hcleared⟩ := Region.write?_of_le r offset.toNat (Bytes.littleEndian 4 0)
        (by rw [Bytes.length_littleEndian]; omega)
      have hzero : cleared.Holds offset.toNat (Bytes.littleEndian 4 (0 : UInt32).toNat) :=
        Region.holds_of_write? hcleared
      have hfirst : Attempt.changes
          (fun s : Region n => s.write? offset.toNat (Bytes.littleEndian 4 0))
          (outOfBounds n ⟨offset, .ofNat payload.length, none⟩) r = .ok () cleared :=
        Attempt.changes_eq_ok_iff.mpr hcleared
      refine ⟨cleared, ⟨hzero.counter?, ?_⟩, ?_⟩
      · intro i hi
        exact Region.get_of_write?_of_outside hcleared (by rwa [Bytes.length_littleEndian])
      · rw [if_pos (by decide)]
        exact Attempt.bind_of_ok hfirst
  | legacy => exact ⟨r, rfl, by rw [if_neg (by decide)]⟩

/-- An entry inside the region is stored, not accessed yet, and nothing around it changes. -/
theorem putIn_of_le {format : Format} {r : Region n} {offset : UInt64} {payload : Bytes}
    (hbound : offset.toNat + extent format payload ≤ n) :
    ∃ after, putIn format offset payload r = .ok () after ∧
      Shown format after offset.toNat payload 0 ∧
      ∀ i, i < offset.toNat ∨ offset.toNat + extent format payload ≤ i →
        after.get i = r.get i := by
  rw [extent] at hbound
  have hlow : payload.length % UInt32.size ≤ payload.length := Nat.mod_le ..
  obtain ⟨cleared, hcleared, hput⟩ := putIn_of_checked (r := r)
    (show offset.toNat + format.counterSize + payload.length % UInt32.size ≤ n by omega)
  obtain ⟨after, hafter⟩ := Region.write?_of_le cleared (offset.toNat + format.counterSize)
    payload (by omega)
  refine ⟨after, hput.trans (Attempt.changes_eq_ok_iff.mpr hafter),
    ⟨Region.holds_of_write? hafter, ?_⟩, ?_⟩
  · rintro rfl
    rw [← hcleared.1]
    refine Region.counter?_congr ?_
    intro i hlow hhigh
    exact Region.get_of_write?_of_outside hafter (.inl hhigh)
  · intro i hi
    rw [extent] at hi
    rw [Region.get_of_write?_of_outside hafter (by omega),
      hcleared.get_of_outside (by omega)]

/-! ## Through a window -/

variable {c : Content} {files : Files}

theorem read_of_payloadIn? {l : Locator} {payload : Bytes}
    (h : payloadIn? c.format (files.view c.mapping) l = some payload) :
    ∃ after, c.read l files = .ok payload after ∧
      Touched c.format (files.view c.mapping) (after.view c.mapping) l.offset.toNat ∧
      ∀ place, place ≠ c.mapping.location → after.file place = files.file place := by
  obtain ⟨r, hread, htouched⟩ := readIn_of_payloadIn? h
  refine ⟨_, Mapping.attempt_of_ok hread, ?_, fun place hplace => Files.file_commit_of_ne hplace⟩
  rw [Files.view_commit_self]
  exact htouched

theorem read_of_payloadIn?_eq_none {l : Locator}
    (h : payloadIn? c.format (files.view c.mapping) l = none) :
    ∃ e after, c.read l files = .error e after ∧
      ∀ place, after.file place = files.file place :=
  ⟨_, _, Mapping.attempt_of_error (readIn_of_payloadIn?_eq_none h),
    Files.file_commit_view files c.mapping⟩

theorem put_of_le (c : Content) (files : Files) {offset : UInt64} {payload : Bytes}
    (hbound : offset.toNat + extent c.format payload ≤ c.mapping.size) :
    ∃ after, c.put offset payload files = .ok () after ∧
      Shown c.format (after.view c.mapping) offset.toNat payload 0 ∧
      (∀ i, i < offset.toNat ∨ offset.toNat + extent c.format payload ≤ i →
        (after.view c.mapping).get i = (files.view c.mapping).get i) ∧
      ∀ place, place ≠ c.mapping.location → after.file place = files.file place := by
  obtain ⟨r, hput, hshown, hframe⟩ := putIn_of_le (r := files.view c.mapping) hbound
  refine ⟨_, Mapping.attempt_of_ok hput, ?_, ?_, fun place hplace => Files.file_commit_of_ne hplace⟩
  · rw [Files.view_commit_self]
    exact hshown
  · rw [Files.view_commit_self]
    exact hframe

end Content

end Columnlet
