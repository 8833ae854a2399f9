import Columnlet.Proofs.Content
import Mathlib.Data.List.Induction

/-! # Entries side by side

Payloads are stored in entries and copied from them, in any order. Entries that share no byte do not
disturb each other, however close they stand: each answers the payload last stored in it and counts
the copies made of it since. -/

namespace Columnlet

/-- A computation run on all elements of a list and then on one more. -/
theorem Attempt.mapM_concat_of_ok {σ α β : Type} {f : α → Attempt σ β} {xs : List α} {x : α}
    {ys : List β} {y : β} {s before after : σ} (hxs : xs.mapM f s = .ok ys before)
    (hx : f x before = .ok y after) : (xs ++ [x]).mapM f s = .ok (ys ++ [y]) after := by
  have hlast : [x].mapM f before = .ok [y] after := by
    rw [List.mapM_cons]
    exact Attempt.bind_of_ok hx
  rw [List.mapM_append]
  exact (Attempt.bind_of_ok hxs).trans (Attempt.bind_of_ok hlast)

/-- What may be done with an entry of a family. -/
inductive Use (ι : Type) where
  | put (i : ι) (payload : Bytes)
  | read (i : ι)

namespace Use

variable {ι : Type}

/-- A payload that is stored has the length that its entry has room for. -/
def Fits (entries : ι → Locator) : Use ι → Prop
  | put i payload => payload.length = (entries i).length.toNat
  | read _ => True

variable [DecidableEq ι]

/-- The payload last stored in an entry, once it has been used. -/
def stored (i : ι) (last : Option Bytes) : Use ι → Option Bytes
  | put j payload => if j = i then some payload else last
  | read _ => last

/-- The count of reads of an entry, once it has been used; it starts afresh with every payload. -/
def tally (i : ι) (count : Nat) : Use ι → Nat
  | put j _ => if j = i then 0 else count
  | read j => if j = i then count + 1 else count

/-- The payload last stored in an entry, if there is one. -/
def lastStored? (i : ι) (uses : List (Use ι)) : Option Bytes := uses.foldl (stored i) none

/-- How often an entry has been read since a payload was last stored in it. -/
def readsSince (i : ι) (uses : List (Use ι)) : Nat := uses.foldl (tally i) 0

theorem lastStored?_concat (i : ι) (uses : List (Use ι)) (u : Use ι) :
    lastStored? i (uses ++ [u]) = u.stored i (lastStored? i uses) := by
  rw [lastStored?, List.foldl_append]
  rfl

theorem readsSince_concat (i : ι) (uses : List (Use ι)) (u : Use ι) :
    readsSince i (uses ++ [u]) = u.tally i (readsSince i uses) := by
  rw [readsSince, List.foldl_append]
  rfl

/-- The payload of an entry after a run, given the one at its start. -/
def payloadAfter (initial : ι → Bytes) (uses : List (Use ι)) (i : ι) : Bytes :=
  (lastStored? i uses).getD (initial i)

/-- The count of an entry after a run, given the one at its start. -/
def countAfter (start : ι → UInt32) (uses : List (Use ι)) (i : ι) : UInt32 :=
  (if (lastStored? i uses).isSome then 0 else start i) + .ofNat (readsSince i uses)

variable (initial : ι → Bytes) (start : ι → UInt32) (uses : List (Use ι)) {i j : ι}

theorem after_put (payload : Bytes) :
    payloadAfter initial (uses ++ [put i payload]) i = payload ∧
      countAfter start (uses ++ [put i payload]) i = 0 := by
  simp [payloadAfter, countAfter, lastStored?_concat, readsSince_concat, stored, tally]

theorem after_put_of_ne (h : i ≠ j) (payload : Bytes) :
    payloadAfter initial (uses ++ [put i payload]) j = payloadAfter initial uses j ∧
      countAfter start (uses ++ [put i payload]) j = countAfter start uses j := by
  simp [payloadAfter, countAfter, lastStored?_concat, readsSince_concat, stored, tally, h]

theorem after_read :
    payloadAfter initial (uses ++ [read i]) i = payloadAfter initial uses i ∧
      countAfter start (uses ++ [read i]) i = countAfter start uses i + 1 := by
  simp [payloadAfter, countAfter, lastStored?_concat, readsSince_concat, stored, tally,
    UInt32.ofNat_add, UInt32.add_assoc]

theorem after_read_of_ne (h : i ≠ j) :
    payloadAfter initial (uses ++ [read i]) j = payloadAfter initial uses j ∧
      countAfter start (uses ++ [read i]) j = countAfter start uses j := by
  simp [payloadAfter, countAfter, lastStored?_concat, readsSince_concat, stored, tally, h]

end Use

namespace Content

variable {n : Nat} {ι : Type} {format : Format} {entries : ι → Locator}

/-- A byte belongs to an entry: to its count, if the layout keeps one there, or to its payload. -/
def Spans (format : Format) (l : Locator) (k : Nat) : Prop :=
  l.offset.toNat ≤ k ∧ k < l.offset.toNat + format.counterSize + l.length.toNat

instance (format : Format) (l : Locator) (k : Nat) : Decidable (Spans format l k) :=
  inferInstanceAs (Decidable (_ ∧ _))

/-- All entries lie inside a region, and no byte belongs to two of them. -/
structure SideBySide (format : Format) (n : Nat) (entries : ι → Locator) : Prop where
  inside : ∀ i, (entries i).offset.toNat + format.counterSize + (entries i).length.toNat ≤ n
  apart : ∀ i j, i ≠ j → ∀ k, ¬ (Spans format (entries i) k ∧ Spans format (entries j) k)

/-- What happens to an entry leaves every other one as it is. -/
theorem SideBySide.shown_of_ne {r s : Region n} {i j : ι} {payload : Bytes} {count : UInt32}
    (hs : SideBySide format n entries) (hne : i ≠ j)
    (hshown : Shown format r (entries j).offset.toNat payload count)
    (hlen : payload.length = (entries j).length.toNat)
    (hframe : ∀ k, ¬ Spans format (entries i) k → s.get k = r.get k) :
    Shown format s (entries j).offset.toNat payload count := by
  refine hshown.congr ?_
  intro k hlow hhigh
  rw [extent, hlen] at hhigh
  apply hframe
  intro hspans
  exact hs.apart i j hne k ⟨hspans, hlow, by omega⟩

/-! ## Runs -/

/-- Use an entry; a read answers its payload. -/
def use (c : Content) (entries : ι → Locator) : Use ι → Attempt Files (Option Bytes)
  | .put i payload => do
    c.put (entries i).offset payload
    return none
  | .read i => do return some (← c.read (entries i))

variable [DecidableEq ι] {c : Content} {files after : Files} {initial : ι → Bytes}
  {start : ι → UInt32} {uses : List (Use ι)}

/-- Every entry shows what has become of it, and no other byte has been changed. -/
structure Stands (c : Content) (entries : ι → Locator) (initial : ι → Bytes) (start : ι → UInt32)
    (files : Files) (uses : List (Use ι)) (after : Files) : Prop where
  shown : ∀ i, Shown c.format (after.view c.mapping) (entries i).offset.toNat
    (Use.payloadAfter initial uses i) (Use.countAfter start uses i)
  length : ∀ i, (Use.payloadAfter initial uses i).length = (entries i).length.toNat
  frame : ∀ k, (∀ i, ¬ Spans c.format (entries i) k) →
    (after.view c.mapping).get k = (files.view c.mapping).get k
  others : ∀ place, place ≠ c.mapping.location → after.file place = files.file place

/-- A use of one entry leaves what stands in the others. -/
theorem Stands.of_use (hs : SideBySide c.format c.mapping.size entries)
    (h : Stands c entries initial start files uses after) {i : ι} {u : Use ι} {last : Files}
    (hshown : Shown c.format (last.view c.mapping) (entries i).offset.toNat
      (Use.payloadAfter initial (uses ++ [u]) i) (Use.countAfter start (uses ++ [u]) i))
    (hlen : (Use.payloadAfter initial (uses ++ [u]) i).length = (entries i).length.toNat)
    (hkept : ∀ j, i ≠ j →
      Use.payloadAfter initial (uses ++ [u]) j = Use.payloadAfter initial uses j ∧
      Use.countAfter start (uses ++ [u]) j = Use.countAfter start uses j)
    (hframe : ∀ k, ¬ Spans c.format (entries i) k →
      (last.view c.mapping).get k = (after.view c.mapping).get k)
    (hothers : ∀ place, place ≠ c.mapping.location → last.file place = after.file place) :
    Stands c entries initial start files (uses ++ [u]) last := by
  refine ⟨?_, ?_, ?_, ?_⟩
  · intro j
    by_cases hj : i = j
    · subst hj
      exact hshown
    · obtain ⟨hpayload, hcount⟩ := hkept j hj
      rw [hpayload, hcount]
      exact hs.shown_of_ne hj (h.shown j) (h.length j) hframe
  · intro j
    by_cases hj : i = j
    · subst hj
      exact hlen
    · rw [(hkept j hj).1]
      exact h.length j
  · intro k hk
    rw [hframe k (hk i), h.frame k hk]
  · intro place hplace
    rw [hothers place hplace, h.others place hplace]

theorem Stands.put (hs : SideBySide c.format c.mapping.size entries)
    (h : Stands c entries initial start files uses after) {i : ι} {payload : Bytes}
    (hfits : payload.length = (entries i).length.toNat) :
    ∃ last, c.use entries (.put i payload) after = .ok none last ∧
      Stands c entries initial start files (uses ++ [.put i payload]) last := by
  have hinside := hs.inside i
  obtain ⟨last, hput, hshown, hframe, hothers⟩ := c.put_of_le after
    (show (entries i).offset.toNat + extent c.format payload ≤ c.mapping.size by
      rw [extent]
      omega)
  obtain ⟨hpayload, hcount⟩ := Use.after_put initial start uses (i := i) payload
  rw [← hpayload, ← hcount] at hshown
  refine ⟨last, Attempt.bind_of_ok hput, h.of_use hs hshown (by rw [hpayload, hfits]) ?_ ?_ hothers⟩
  · intro j hj
    exact Use.after_put_of_ne initial start uses hj payload
  · intro k hk
    rw [Spans] at hk
    apply hframe
    rw [extent, hfits]
    omega

theorem Stands.read (hs : SideBySide c.format c.mapping.size entries)
    (h : Stands c entries initial start files uses after) (i : ι) :
    ∃ last, c.use entries (.read i) after = .ok (some (Use.payloadAfter initial uses i)) last ∧
      Stands c entries initial start files (uses ++ [.read i]) last ∧
      (c.format = .legacy → last.view c.mapping = after.view c.mapping) := by
  obtain ⟨last, hread, htouched, hothers⟩ :=
    read_of_payloadIn? (payloadIn?_of_shown (h.shown i) (h.length i).symm)
  obtain ⟨hpayload, hcount⟩ := Use.after_read initial start uses (i := i)
  have hshown := (h.shown i).touch htouched
  rw [← hpayload, ← hcount] at hshown
  refine ⟨last, Attempt.bind_of_ok hread,
    h.of_use hs hshown (by rw [hpayload, h.length]) ?_ ?_ hothers, ?_⟩
  · intro j hj
    exact Use.after_read_of_ne initial start uses hj
  · intro k hk
    rw [Spans] at hk
    apply htouched.get_of_outside
    omega
  · intro hformat
    rw [hformat] at htouched
    exact htouched

/-- Every use of a run succeeds, and every read answers the payload that stands in its entry. -/
theorem stands_of_uses (hs : SideBySide c.format c.mapping.size entries)
    (hstart : Stands c entries initial start files [] files)
    (hfits : ∀ u ∈ uses, u.Fits entries) :
    ∃ answers after, uses.mapM (c.use entries) files = .ok answers after ∧
      Stands c entries initial start files uses after ∧ answers.length = uses.length ∧
      ∀ k i, uses[k]? = some (.read i) →
        answers[k]? = some (some (Use.payloadAfter initial (uses.take k) i)) := by
  -- Induction on the uses from the last one back: what stands is told by the uses before.
  induction uses using List.reverseRecOn with
  | nil => exact ⟨[], files, rfl, hstart, rfl, by simp⟩
  | append_singleton uses u ih =>
      obtain ⟨answers, before, hrun, hstands, hlen, hanswers⟩ :=
        ih fun u hu => hfits u (List.mem_append_left _ hu)
      have hu := hfits u (by simp)
      obtain ⟨answer, last, huse, hlast, hanswer⟩ : ∃ answer last,
          c.use entries u before = .ok answer last ∧
          Stands c entries initial start files (uses ++ [u]) last ∧
          ∀ i, u = .read i → answer = some (Use.payloadAfter initial uses i) := by
        cases u with
        | put i payload =>
            obtain ⟨last, huse, hlast⟩ := hstands.put hs hu
            exact ⟨none, last, huse, hlast, by simp⟩
        | read i =>
            obtain ⟨last, huse, hlast, -⟩ := hstands.read hs i
            refine ⟨_, last, huse, hlast, ?_⟩
            intro j hj
            cases hj
            rfl
      refine ⟨answers ++ [answer], last, ?_, hlast, by simp [hlen], ?_⟩
      · exact Attempt.mapM_concat_of_ok hrun huse
      · intro k i hk
        rcases Nat.lt_or_ge k uses.length with hlt | hge
        · rw [List.getElem?_append_left hlt] at hk
          rw [List.getElem?_append_left (by omega), List.take_append_of_le_length (by omega)]
          exact hanswers k i hk
        · rw [List.getElem?_append_right hge, List.getElem?_singleton] at hk
          split at hk
          · obtain rfl : k = uses.length := by omega
            rw [hanswer i (Option.some.inj hk), ← hlen]
            simp [hlen]
          · cases hk

/-- At the start every entry inside the region shows some payload, and some count. -/
theorem exists_shown (format : Format) (r : Region n) {l : Locator}
    (hinside : l.offset.toNat + format.counterSize + l.length.toNat ≤ n) :
    ∃ payload count, payloadIn? format r l = some payload ∧
      payload.length = l.length.toNat ∧ Shown format r l.offset.toNat payload count := by
  obtain ⟨payload, hpayload⟩ := r.read?_of_le hinside
  obtain ⟨hlen, hheld⟩ := Region.read?_eq_some_iff.mp hpayload
  cases format with
  | current =>
      rw [Format.counterSize] at hinside
      obtain ⟨count, hcount⟩ := r.little?_of_le 4
        (show l.offset.toNat + 4 ≤ n by omega)
      refine ⟨payload, .ofNat count, hpayload, hlen, hheld, fun _ => ?_⟩
      rw [Region.counter?, hcount]
      rfl
  | legacy =>
      refine ⟨payload, 0, hpayload, hlen, hheld, ?_⟩
      intro hformat
      cases hformat

theorem accessCount?_of_shown {l : Locator} {payload : Bytes} {count : UInt32}
    (h : Shown c.format (files.view c.mapping) l.offset.toNat payload count)
    (hformat : c.format = .current) : c.accessCount? files l.offset = some count := by
  have hcount := h.counted hformat
  rw [accessCount?, hformat]
  exact hcount

/-- Whatever is done with entries side by side succeeds. A read answers the payload last stored in
its entry, or the bytes that stood there at the start. In the current layout an entry counts its
reads since, from zero or from where the count stood at the start; in the legacy layout a read
changes nothing. No other byte is ever changed. -/
theorem uses_of_sideBySide (hs : SideBySide c.format c.mapping.size entries) (files : Files)
    (hfits : ∀ u ∈ uses, u.Fits entries) :
    ∃ (initial : ι → Bytes) (start : ι → UInt32),
      (∀ i, payloadIn? c.format (files.view c.mapping) (entries i) = some (initial i)) ∧
      (c.format = .current → ∀ i, c.accessCount? files (entries i).offset = some (start i)) ∧
      ∃ answers after, uses.mapM (c.use entries) files = .ok answers after ∧
        (∀ k i, uses[k]? = some (.read i) →
          answers[k]? = some (some ((Use.lastStored? i (uses.take k)).getD (initial i)))) ∧
        (c.format = .current → ∀ i, c.accessCount? after (entries i).offset =
          some ((if (Use.lastStored? i uses).isSome then 0 else start i) +
            .ofNat (Use.readsSince i uses))) ∧
        (c.format = .legacy → ∀ i, ∃ answer last,
          c.use entries (.read i) after = .ok answer last ∧
            last.view c.mapping = after.view c.mapping) ∧
        (∀ k, (∀ i, ¬ Spans c.format (entries i) k) →
          (after.view c.mapping).get k = (files.view c.mapping).get k) ∧
        ∀ place, place ≠ c.mapping.location → after.file place = files.file place := by
  choose initial start hinitial hlen hshown using
    fun i => exists_shown c.format (files.view c.mapping) (hs.inside i)
  have hstands : Stands c entries initial start files [] files := by
    refine ⟨?_, hlen, fun _ _ => rfl, fun _ _ => rfl⟩
    intro i
    simpa [Use.payloadAfter, Use.countAfter, Use.lastStored?, Use.readsSince] using hshown i
  obtain ⟨answers, after, hrun, hafter, -, hanswers⟩ := stands_of_uses hs hstands hfits
  refine ⟨initial, start, hinitial, ?_, answers, after, hrun, hanswers, ?_, ?_, hafter.frame,
    hafter.others⟩
  · intro hformat i
    exact accessCount?_of_shown (hshown i) hformat
  · intro hformat i
    exact accessCount?_of_shown (hafter.shown i) hformat
  · intro hformat i
    obtain ⟨last, hread, -, hsame⟩ := hafter.read hs i
    exact ⟨_, last, hread, hsame hformat⟩

/-- A content file of 21 bytes, in which a count at an odd offset is about to start again. -/
def sampleContent : Content := ⟨⟨"content", ["content"], 21⟩, .current⟩

def sampleFiles : Files :=
  Files.empty.put ["content"] (.ofBytes [7, 0xff, 0xff, 0xff, 0xff, 97, 98, 99] 21)

/-- Two entries back to back, the second up to the end of the file. -/
def sampleEntries : Bool → Locator
  | false => { offset := 1, length := 3 }
  | true => { offset := 8, length := 9 }

def sampleUses : List (Use Bool) :=
  [.read false, .put true [1, 2, 3, 4, 5, 6, 7, 8, 9], .read true, .read false, .read true]

theorem uses_of_sideBySide_sample :
    ∃ answers after, sampleUses.mapM (sampleContent.use sampleEntries) sampleFiles =
        .ok answers after ∧
      answers[0]? = some (some [97, 98, 99]) ∧
      answers[2]? = some (some [1, 2, 3, 4, 5, 6, 7, 8, 9]) ∧
      sampleContent.accessCount? after 1 = some 1 ∧
      sampleContent.accessCount? after 8 = some 2 ∧
      (after.view sampleContent.mapping).get 0 = 7 := by
  have hs : SideBySide .current 21 sampleEntries := by
    refine ⟨by decide, ?_⟩
    intro i j hne k
    cases i <;> cases j <;> simp [Spans, sampleEntries, Format.counterSize] at hne ⊢ <;> omega
  have hfits : ∀ u ∈ sampleUses, u.Fits sampleEntries := by
    simp [sampleUses, Use.Fits, sampleEntries]
  obtain ⟨initial, start, hinitial, hstart, answers, after, hrun, hanswers, hcounts, -, hframe,
    -⟩ := uses_of_sideBySide (c := sampleContent) hs sampleFiles hfits
  have hfirst : initial false = [97, 98, 99] :=
    Option.some.inj ((hinitial false).symm.trans (by decide +kernel))
  have hcount : start false = 0xffffffff :=
    Option.some.inj ((hstart rfl false).symm.trans (by decide +kernel))
  refine ⟨answers, after, hrun, ?_, ?_, ?_, ?_, ?_⟩
  · rw [hanswers 0 false rfl, ← hfirst]
    rfl
  · exact hanswers 2 true rfl
  · have h := hcounts rfl false
    rw [hcount] at h
    exact h
  · exact hcounts rfl true
  · rw [hframe 0 (by decide)]
    decide +kernel

end Content

end Columnlet
