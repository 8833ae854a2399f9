import Columnlet.Proofs.Coordinator
import Columnlet.Proofs.Files

/-! # Waiting for readers

Readers are admitted and leave, and writers announce a rebuild, wait and finish, in any order and
through any handles on one region. The count never overstates the readers, and a wait that ends
early tells that none is left, unless the count has been taken down beside a reader: finishing a
rebuild counts from zero again, whoever is still reading. -/

namespace Columnlet

namespace Header

variable {n : Nat}

/-- When nothing else runs, the length of the wait makes no difference. -/
theorem awaitDrain_eq_drained (h : Header) (deadline : Nat) (clock : List Nat) :
    h.awaitDrain deadline clock = h.drained := by
  induction clock with
  | nil => rfl
  | cons now later ih => rw [awaitDrain, ih]; cases h.drained <;> simp

theorem drained_iff {h : Header} : h.drained = true ↔ h.readers.toNat = 0 := by
  rw [drained, decide_eq_true_iff, ← UInt16.toNat_inj]
  rfl

theorem toNat_readers_of_enter {h h' : Header} (hent : h.enter = .ok h') :
    h'.readers.toNat = h.readers.toNat + 1 := by
  obtain ⟨-, hroom, rfl⟩ := enter_eq_ok_iff.mp hent
  have hlt : h.readers.toNat < 32767 := hroom
  rw [UInt16.toNat_add, UInt16.toNat_one]
  omega

theorem toNat_readers_leave (h : Header) : h.leave.readers.toNat = h.readers.toNat - 1 := by
  by_cases hzero : h.readers = 0
  · simp [leave, hzero]
  · have hpos : h.readers.toNat ≠ 0 := fun hnat => hzero (UInt16.toNat_inj.mp hnat)
    have hle : (1 : UInt16) ≤ h.readers := Nat.one_le_iff_ne_zero.mpr hpos
    simp only [leave, if_neg hzero]
    exact UInt16.toNat_sub_of_le _ _ hle

/-- How many bytes a window shows behind the header makes no difference to it. -/
theorem ofRegion_resize (r : Region n) (hn : width ≤ n) :
    ofRegion (⟨r.memory⟩ : Region width) = ofRegion r := by
  have hfield (offset : Nat) (hoffset : offset + 2 ≤ width) :
      (⟨r.memory⟩ : Region width).little? 2 offset = r.little? 2 offset := by
    rw [Region.little?, Region.little?, Region.read?, Region.read?, if_pos hoffset,
      if_pos (Nat.le_trans hoffset hn)]
  rw [ofRegion, ofRegion, hfield flagOffset (by decide), hfield readersOffset (by decide)]

end Header

/-! ## Handles on one region -/

namespace Coordinator

/-- The handle is open on the header of the region at a location. -/
structure Watches (c : Coordinator) (l : Location) : Prop where
  location : c.mapping.location = l
  opened : Coordinator.ofMapping c.mapping = .ok c

variable {c : Coordinator} {l : Location} {files : Files}

theorem Watches.width_le (h : c.Watches l) : Header.width ≤ c.mapping.size := by
  obtain ⟨_, hrequire, -⟩ := except_bind_eq_ok_iff.mp h.opened
  exact Mapping.require_eq_ok_iff.mp hrequire

theorem Watches.state_eq (h : c.Watches l) (files : Files) :
    c.state files = Header.ofRegion (files.region l Header.width) := by
  obtain ⟨rfl, -⟩ := id h
  exact (Header.ofRegion_resize (files.view c.mapping) h.width_le).symm

/-- Every handle on the region sees the header that one of them has stored. -/
theorem Watches.state_update {other : Coordinator} (h : c.Watches l) (hother : other.Watches l)
    (f : Header → Header) (files : Files) :
    other.state (c.update f files) = f (other.state files) := by
  rw [hother.state_eq, hother.state_eq, ← h.state_eq, ← h.state_eq, state, view_update,
    Header.ofRegion_store _ _ h.width_le]

theorem enter_eq_ok_iff {after : Files} :
    c.enter files = .ok after ↔
      ∃ h, (c.state files).enter = .ok h ∧ after = c.update (fun _ => h) files := by
  unfold enter
  cases (c.state files).enter with
  | error reason => simp
  | ok h => simp [eq_comm]

end Coordinator

/-! ## Runs -/

/-- A handshake under way: the files, the guards of the reads that have been admitted and have not
left yet, each with its handle, and whether the count has fallen behind them. -/
structure Handshake where
  files : Files
  guards : List Coordinator
  behind : Bool

namespace Handshake

/-- What may be done through a handle. -/
inductive Move where
  | enter
  | drop
  | leave
  | beginRebuild
  | awaitDrain
  | finishRebuild
  deriving DecidableEq, Repr

/-- Do something through a handle. A refused read changes nothing and no guard is dropped twice, but
a read may be said to have left without having been admitted. The count falls behind the guards
when it is lowered or reset beside them, and has caught up once the last of them is gone. -/
def act (c : Coordinator) (s : Handshake) : Move → Handshake
  | .enter =>
    match c.enter s.files with
    | .error _ => s
    | .ok after => { s with files := after, guards := c :: s.guards }
  | .drop =>
    if c ∈ s.guards then
      let rest := s.guards.erase c
      ⟨c.leave s.files, rest, s.behind && rest ≠ []⟩
    else s
  | .leave => { s with files := c.leave s.files, behind := s.guards ≠ [] }
  | .beginRebuild => { s with files := c.update Header.beginRebuild s.files }
  | .awaitDrain => s
  | .finishRebuild =>
    { s with files := c.update Header.finishRebuild s.files, behind := s.guards ≠ [] }

/-- Do one thing after the other. -/
def run (moves : List (Coordinator × Move)) (s : Handshake) : Handshake :=
  moves.foldl (fun s move => s.act move.1 move.2) s

/-- The count is that of the guards, or it is lower and has fallen behind. -/
structure Inv (c : Coordinator) (s : Handshake) : Prop where
  le : (c.state s.files).readers.toNat ≤ s.guards.length
  behind : s.behind = false ↔ (c.state s.files).readers.toNat = s.guards.length

variable {l : Location} {c other : Coordinator} {s : Handshake}

theorem Inv.act (h : s.Inv c) (hc : c.Watches l) (hother : other.Watches l) (move : Move) :
    (s.act other move).Inv c := by
  obtain ⟨hle, hbehind⟩ := h
  cases move with
  | enter =>
      simp only [Handshake.act]
      cases hent : other.enter s.files with
      | error reason => exact ⟨hle, hbehind⟩
      | ok after =>
          obtain ⟨header, hheader, rfl⟩ := Coordinator.enter_eq_ok_iff.mp hent
          have hcount := Header.toNat_readers_of_enter hheader
          rw [hother.state_eq, ← hc.state_eq] at hcount
          constructor <;> simp only [hother.state_update hc, List.length_cons]
          · omega
          · rw [hbehind]
            omega
  | drop =>
      simp only [Handshake.act]
      split
      · rename_i halive
        have hpos := List.length_pos_of_mem halive
        have hlen := List.length_erase_of_mem halive
        have hnone : s.guards.erase other = [] ↔ s.guards.length - 1 = 0 := by
          rw [← List.length_eq_zero_iff, hlen]
        -- A count that is behind stays so while a guard is left: it goes down with the guards, or
        -- is zero.
        constructor <;>
          simp only [Coordinator.leave, hother.state_update hc, Header.toNat_readers_leave, hlen]
        · omega
        · rw [Bool.and_eq_false_iff, hbehind, decide_eq_false_iff_not, Decidable.not_not, hnone]
          omega
      · exact ⟨hle, hbehind⟩
  | leave =>
      have hnone : s.guards = [] ↔ s.guards.length = 0 := List.length_eq_zero_iff.symm
      constructor <;>
        simp only [Handshake.act, Coordinator.leave, hother.state_update hc,
          Header.toNat_readers_leave]
      · omega
      · rw [decide_eq_false_iff_not, Decidable.not_not, hnone]
        omega
  | beginRebuild =>
      constructor <;> simp only [Handshake.act, hother.state_update hc, Header.beginRebuild]
      · exact hle
      · exact hbehind
  | awaitDrain => exact ⟨hle, hbehind⟩
  | finishRebuild =>
      constructor <;> simp only [Handshake.act, hother.state_update hc, Header.finishRebuild]
      · exact Nat.zero_le _
      · rw [decide_eq_false_iff_not, Decidable.not_not, UInt16.toNat_zero, eq_comm (a := 0),
          List.length_eq_zero_iff]

theorem Inv.run (h : s.Inv c) (hc : c.Watches l) {moves : List (Coordinator × Move)}
    (hmoves : ∀ move ∈ moves, move.1.Watches l) : (s.run moves).Inv c := by
  induction moves generalizing s with
  | nil => exact h
  | cons move rest ih =>
      obtain ⟨hmove, hrest⟩ := List.forall_mem_cons.mp hmoves
      exact ih (h.act hc hmove move.2) hrest

/-- From a header of zeros, over any run and through any handles, the count never exceeds the guards
that are alive, and is their number unless it has fallen behind. So long as it has not, a wait of
any length tells whether a guard is alive, and no wait is for a guard that is gone. -/
theorem awaitDrain_of_run {files : Files} {moves : List (Coordinator × Move)}
    (hzero : Header.ofRegion (files.region l Header.width) = ⟨0, 0⟩)
    (hmoves : ∀ move ∈ moves, move.1.Watches l) (hc : c.Watches l) (deadline : Nat)
    (clock : List Nat) (hs : s = run moves ⟨files, [], false⟩) :
    (c.state s.files).readers.toNat ≤ s.guards.length ∧
      (s.behind = false ↔ (c.state s.files).readers.toNat = s.guards.length) ∧
      (s.behind = false →
        ((c.state s.files).awaitDrain deadline clock = true ↔ s.guards = [])) ∧
      (s.guards = [] → (c.state s.files).awaitDrain deadline clock = true) := by
  have hstart : Inv c ⟨files, [], false⟩ := by
    constructor <;> simp [hc.state_eq, hzero]
  obtain ⟨hle, hbehind⟩ := hstart.run hc hmoves
  rw [← hs] at hle hbehind
  rw [Header.awaitDrain_eq_drained, Header.drained_iff]
  refine ⟨hle, hbehind, ?_, ?_⟩
  · intro hlevel
    rw [hbehind.mp hlevel, List.length_eq_zero_iff]
  · intro hnone
    rw [hnone] at hle
    exact Nat.le_zero.mp hle

/-- A handle on a region of 64 bytes, and a file for it. -/
def sampleHandle : Coordinator := ⟨⟨"index", ["index"], 64⟩⟩

def sampleFiles : Files := Files.empty.put ["index"] (.ofBytes [] 64)

/-- A reader comes, the writer announces a rebuild, and the reader leaves. -/
def sampleMoves : List (Coordinator × Move) :=
  [(sampleHandle, .enter), (sampleHandle, .beginRebuild), (sampleHandle, .drop)]

theorem awaitDrain_of_run_sample :
    ∃ s, s = run sampleMoves ⟨sampleFiles, [], false⟩ ∧
      (sampleHandle.state s.files).awaitDrain 1 [0, 1] = true := by
  have hzero : Header.ofRegion (sampleFiles.region ["index"] Header.width) = ⟨0, 0⟩ := by
    decide +kernel
  have hwatches : sampleHandle.Watches ["index"] := ⟨rfl, rfl⟩
  have hmoves : ∀ move ∈ sampleMoves, move.1.Watches ["index"] := by
    simp [sampleMoves, hwatches]
  obtain ⟨-, -, -, hdrained⟩ := awaitDrain_of_run hzero hmoves hwatches 1 [0, 1] rfl
  exact ⟨_, rfl, hdrained (by decide +kernel)⟩

/-- A writer that does not get the readers drained, finishes all the same and rebuilds again is told
that no reader is left, while the guard of the first round is alive. -/
theorem drained_beside_guard :
    ∃ s, s = run [(sampleHandle, .enter), (sampleHandle, .beginRebuild),
        (sampleHandle, .awaitDrain), (sampleHandle, .finishRebuild),
        (sampleHandle, .beginRebuild)] ⟨sampleFiles, [], false⟩ ∧
      Header.ofRegion (sampleFiles.region ["index"] Header.width) = ⟨0, 0⟩ ∧
      sampleHandle.Watches ["index"] ∧
      (∀ deadline clock, (sampleHandle.state s.files).awaitDrain deadline clock = true) ∧
      s.guards = [sampleHandle] := by
  refine ⟨_, rfl, by decide +kernel, ⟨rfl, rfl⟩, ?_, by decide +kernel⟩
  intro deadline clock
  rw [Header.awaitDrain_eq_drained]
  decide +kernel

end Handshake

end Columnlet
