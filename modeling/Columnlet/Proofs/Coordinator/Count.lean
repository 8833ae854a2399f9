import Columnlet.Proofs.Coordinator.Drain

/-! # Counting readers

Over any run of admissions, departures and rebuilds the count of reads stands for at most as many
guards as are alive, so a read is refused for want of room only beside that many others. The count
is exact so long as nothing takes it down beside a guard, and while a writer rebuilds, no read is
admitted. -/

namespace Columnlet

namespace Header

theorem enter_eq_error_iff {h : Header} {reason : Refusal} :
    h.enter = .error reason ↔
      (reason = .writerActive ∧ h.writerFlag ≠ 0) ∨
      (reason = .saturated ∧ h.writerFlag = 0 ∧ ceiling ≤ h.readers) := by
  unfold enter
  by_cases hflag : h.writerFlag = 0
  · by_cases hfull : ceiling ≤ h.readers
    · simp [hflag, hfull, eq_comm]
    · simp [hflag, hfull]
  · simp [hflag, eq_comm]

theorem writerFlag_beginRebuild (h : Header) : h.beginRebuild.writerFlag ≠ 0 :=
  show (1 : UInt16) ≠ 0 by decide

end Header

theorem Coordinator.enter_eq_error_iff {c : Coordinator} {files : Files} {reason : Refusal} :
    c.enter files = .error reason ↔ (c.state files).enter = .error reason := by
  unfold enter
  cases (c.state files).enter <;> simp

namespace Handshake

variable {l : Location} {c other : Coordinator} {s : Handshake} {move : Move}
  {moves : List (Coordinator × Move)}

/-! ## The header in a run -/

/-- What a move makes of the header: nothing, one more read, one read less, or the start or the end
of a rebuild. -/
theorem state_act (hc : c.Watches l) (hother : other.Watches l) (s : Handshake) (move : Move) :
    c.state (s.act other move).files = c.state s.files ∨
    (c.state s.files).enter = .ok (c.state (s.act other move).files) ∨
    c.state (s.act other move).files = (c.state s.files).leave ∨
    c.state (s.act other move).files = (c.state s.files).beginRebuild ∨
    move = .finishRebuild ∧
      c.state (s.act other move).files = (c.state s.files).finishRebuild := by
  cases move with
  | enter =>
      simp only [act]
      cases hent : other.enter s.files with
      | error reason => exact .inl rfl
      | ok after =>
          obtain ⟨header, hheader, rfl⟩ := Coordinator.enter_eq_ok_iff.mp hent
          rw [hother.state_eq, ← hc.state_eq] at hheader
          refine .inr (.inl ?_)
          rw [hother.state_update hc, hheader]
  | drop =>
      simp only [act]
      split
      · exact .inr (.inr (.inl (hother.state_update hc _ _)))
      · exact .inl rfl
  | leave => exact .inr (.inr (.inl (hother.state_update hc _ _)))
  | beginRebuild => exact .inr (.inr (.inr (.inl (hother.state_update hc _ _))))
  | awaitDrain => exact .inl rfl
  | finishRebuild => exact .inr (.inr (.inr (.inr ⟨rfl, hother.state_update hc _ _⟩)))

/-- The count stays below the ceiling. -/
theorem readers_act_le (hc : c.Watches l) (hother : other.Watches l)
    (h : (c.state s.files).readers.toNat ≤ Header.ceiling.toNat) (move : Move) :
    (c.state (s.act other move).files).readers.toNat ≤ Header.ceiling.toNat := by
  rcases state_act hc hother s move with hsame | hent | hleave | hbegin | ⟨-, hfinish⟩
  · rw [hsame]
    exact h
  · have hcount := Header.toNat_readers_of_enter hent
    obtain ⟨-, hroom, -⟩ := Header.enter_eq_ok_iff.mp hent
    rw [UInt16.lt_iff_toNat_lt] at hroom
    omega
  · rw [hleave, Header.toNat_readers_leave]
    omega
  · rw [hbegin]
    exact h
  · rw [hfinish]
    exact Nat.zero_le _

/-- A raised flag stays raised until a rebuild is finished. -/
theorem writerFlag_act (hc : c.Watches l) (hother : other.Watches l)
    (h : (c.state s.files).writerFlag ≠ 0) (hmove : move ≠ .finishRebuild) :
    (c.state (s.act other move).files).writerFlag ≠ 0 := by
  rcases state_act hc hother s move with hsame | hent | hleave | hbegin | ⟨hfinish, -⟩
  · rw [hsame]
    exact h
  · exact absurd (Header.enter_eq_ok_iff.mp hent).1 h
  · rw [hleave]
    exact h
  · rw [hbegin]
    exact Header.writerFlag_beginRebuild _
  · exact absurd hfinish hmove

theorem readers_run_le (hc : c.Watches l) (hmoves : ∀ move ∈ moves, move.1.Watches l)
    (h : (c.state s.files).readers.toNat ≤ Header.ceiling.toNat) :
    (c.state (s.run moves).files).readers.toNat ≤ Header.ceiling.toNat := by
  induction moves generalizing s with
  | nil => exact h
  | cons move rest ih =>
      obtain ⟨hmove, hrest⟩ := List.forall_mem_cons.mp hmoves
      exact ih hrest (readers_act_le hc hmove h move.2)

theorem writerFlag_run (hc : c.Watches l) (hmoves : ∀ move ∈ moves, move.1.Watches l)
    (hnone : ∀ move ∈ moves, move.2 ≠ .finishRebuild) (h : (c.state s.files).writerFlag ≠ 0) :
    (c.state (s.run moves).files).writerFlag ≠ 0 := by
  induction moves generalizing s with
  | nil => exact h
  | cons move rest ih =>
      obtain ⟨hmove, hrest⟩ := List.forall_mem_cons.mp hmoves
      obtain ⟨hfinish, hlater⟩ := List.forall_mem_cons.mp hnone
      exact ih hrest hlater (writerFlag_act hc hmove h hfinish)

theorem run_append (s : Handshake) (first last : List (Coordinator × Move)) :
    s.run (first ++ last) = (s.run first).run last := List.foldl_append

/-! ## Runs that keep the count -/

/-- No read is said to have left without having been admitted, and no rebuild is finished while a
guard is alive. -/
def Undisturbed (s : Handshake) (moves : List (Coordinator × Move)) : Prop :=
  ∀ before move later, moves = before ++ move :: later →
    move.2 ≠ .leave ∧ (move.2 = .finishRebuild → (s.run before).guards = [])

theorem behind_act (h : s.behind = false) (hleave : move ≠ .leave)
    (hfinish : move = .finishRebuild → s.guards = []) : (s.act c move).behind = false := by
  cases move with
  | enter =>
      simp only [act]
      cases c.enter s.files <;> exact h
  | drop =>
      simp only [act]
      split
      · simp [h]
      · exact h
  | leave => exact absurd rfl hleave
  | beginRebuild => exact h
  | awaitDrain => exact h
  | finishRebuild => simp [act, hfinish rfl]

theorem behind_run (h : s.behind = false) (hmoves : s.Undisturbed moves) :
    (s.run moves).behind = false := by
  induction moves generalizing s with
  | nil => exact h
  | cons move rest ih =>
      obtain ⟨hleave, hfinish⟩ := hmoves [] move rest rfl
      refine ih (behind_act (c := move.1) h hleave hfinish) ?_
      intro before other later hrest
      exact hmoves (move :: before) other later (by rw [hrest]; rfl)

/-! ## The count and the guards -/

/-- From a header of zeros, over any run and through any handles, the count exceeds neither the
guards that are alive nor its ceiling, so a read is refused for want of room only beside so many
guards. The count is the number of guards in an undisturbed run. From the start of a rebuild to the
next end of one every read is refused for the writer, and a refused read changes nothing. -/
theorem readers_of_run {files : Files}
    (hzero : Header.ofRegion (files.region l Header.width) = ⟨0, 0⟩)
    (hmoves : ∀ move ∈ moves, move.1.Watches l) (hc : c.Watches l)
    (hs : s = run moves ⟨files, [], false⟩) :
    (c.state s.files).readers.toNat ≤ s.guards.length ∧
    (c.state s.files).readers.toNat ≤ 32767 ∧
    (c.enter s.files = .error .saturated → 32767 ≤ s.guards.length) ∧
    (Undisturbed ⟨files, [], false⟩ moves →
      (c.state s.files).readers.toNat = s.guards.length) ∧
    (∀ before writer later, moves = before ++ (writer, .beginRebuild) :: later →
      (∀ move ∈ later, move.2 ≠ .finishRebuild) → c.enter s.files = .error .writerActive) ∧
    ∀ reason, c.enter s.files = .error reason → s.act c .enter = s := by
  have hstate : c.state files = ⟨0, 0⟩ := by rw [hc.state_eq, hzero]
  have hstart : Inv c ⟨files, [], false⟩ := by
    constructor <;> simp [hstate]
  obtain ⟨hle, hbehind⟩ := hstart.run hc hmoves
  have hceiling := readers_run_le (s := ⟨files, [], false⟩) hc hmoves (by simp [hstate])
  rw [← hs] at hle hbehind hceiling
  refine ⟨hle, hceiling, ?_, ?_, ?_, ?_⟩
  · intro hsaturated
    rw [Coordinator.enter_eq_error_iff, Header.enter_eq_error_iff] at hsaturated
    rcases hsaturated with ⟨hreason, -⟩ | ⟨-, -, hfull⟩
    · cases hreason
    · exact Nat.le_trans (UInt16.le_iff_toNat_le.mp hfull) hle
  · intro hundisturbed
    refine hbehind.mp ?_
    rw [hs]
    exact behind_run rfl hundisturbed
  · intro before writer later hsplit hlater
    rw [hsplit] at hmoves hs
    have hwriter := hmoves (writer, .beginRebuild) (by simp)
    have hraised (s : Handshake) : (c.state (s.act writer .beginRebuild).files).writerFlag ≠ 0 := by
      rw [act, hwriter.state_update hc]
      exact Header.writerFlag_beginRebuild _
    have hlast := writerFlag_run hc (fun move hmem => hmoves move (by simp [hmem])) hlater
      (hraised (run before ⟨files, [], false⟩))
    rw [Coordinator.enter_eq_error_iff, Header.enter_eq_error_iff, hs, run_append]
    exact .inl ⟨rfl, hlast⟩
  · intro reason hrefused
    simp only [act, hrefused]

/-- While the writer rebuilds beside the read that it found, the read is counted and a second one is
refused. -/
theorem readers_of_run_sample :
    ∃ s, s = run [(sampleHandle, .enter), (sampleHandle, .beginRebuild)] ⟨sampleFiles, [], false⟩ ∧
      (sampleHandle.state s.files).readers.toNat = 1 ∧
      sampleHandle.enter s.files = .error .writerActive ∧ s.act sampleHandle .enter = s := by
  have hzero : Header.ofRegion (sampleFiles.region ["index"] Header.width) = ⟨0, 0⟩ := by
    decide +kernel
  have hwatches : sampleHandle.Watches ["index"] := ⟨rfl, rfl⟩
  have hmoves : ∀ move ∈ [(sampleHandle, Move.enter), (sampleHandle, .beginRebuild)],
      move.1.Watches ["index"] := by simp [hwatches]
  obtain ⟨-, -, -, hexact, hrefused, hsame⟩ := readers_of_run hzero hmoves hwatches rfl
  have hactive := hrefused [(sampleHandle, .enter)] sampleHandle [] rfl (by simp)
  refine ⟨_, rfl, ?_, hactive, hsame _ hactive⟩
  rw [hexact]
  · decide +kernel
  · intro before move later hsplit
    have hmem : move ∈ [(sampleHandle, Move.enter), (sampleHandle, Move.beginRebuild)] := by
      rw [hsplit]
      simp
    simp only [List.mem_cons, List.not_mem_nil, or_false] at hmem
    rcases hmem with rfl | rfl <;> simp

end Handshake

end Columnlet
