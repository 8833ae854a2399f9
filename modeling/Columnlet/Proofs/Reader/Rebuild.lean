import Columnlet.Proofs.Index.Frame
import Columnlet.Proofs.Index.RoundTrip
import Columnlet.Proofs.Reader.Accounting

/-! # The cache as a map

A cache is rebuilt again and again, and read at any time. Between rebuilds its reads are those of
the map that was published last, although every read that is served writes into the regions that
later reads depend on; while it is rebuilt, no read is admitted. -/

namespace Columnlet

variable {σ : Type}

/-! ## Maps -/

/-- A payload to be stored for a key, and where. -/
structure Placement where
  key : Bytes
  offset : UInt64
  payload : Bytes

/-- What an index says of a payload. -/
def Placement.place (p : Placement) : UInt64 × UInt32 := (p.offset, .ofNat p.payload.length)

/-- The place that a slot names. -/
def Slot.place (s : Slot) : UInt64 × UInt32 := (s.offset, s.length)

/-- Whether an address is one of the bytes that a payload takes in a layout. -/
def Placement.Covers (format : Format) (p : Placement) (i : Nat) : Prop :=
  p.offset.toNat ≤ i ∧ i < p.offset.toNat + Content.extent format p.payload

/-- What a map has for a key. -/
def placed? (map : List Placement) (key : Bytes) : Option Placement :=
  map.find? fun p => p.key = key

/-- A list of placements is a map, and fits into a content file of a size: its payloads lie inside
the file, have lengths of 32 bits and do not meet. -/
structure FitsIn (format : Format) (size : Nat) (map : List Placement) : Prop where
  keys : ∀ p ∈ map, ∀ q ∈ map, p.key = q.key → p = q
  inside : ∀ p ∈ map, p.offset.toNat + Content.extent format p.payload ≤ size
  short : ∀ p ∈ map, p.payload.length < UInt32.size
  apart : ∀ p ∈ map, ∀ q ∈ map, p.key ≠ q.key → ∀ i, ¬ (p.Covers format i ∧ q.Covers format i)

/-- Insertions make up the index of a map: the last one of each key names the place of its payload,
and no other key is inserted. -/
def Indexes (insertions : List (Bytes × Slot)) (map : List Placement) : Prop :=
  ∀ key, (lastInserted? insertions key).map Slot.place = (placed? map key).map Placement.place

theorem placed?_eq_some {map : List Placement} {key : Bytes} {p : Placement}
    (h : placed? map key = some p) : p ∈ map ∧ p.key = key :=
  ⟨List.mem_of_find?_eq_some h, by simpa using List.find?_some h⟩

/-! ## Runs -/

/-- Where a cache is between and within its rebuilds. -/
inductive Phase where
  | fresh
  | rebuilding (map stored : List Placement)
  | published (map : List Placement)
  | serving (map : List Placement)

/-- A cache in a run: the state that reads act on, the phase, and the count of reads served for each
key since the last rebuild. -/
structure Cache (σ : Type) where
  phase : Phase
  hits : Bytes → Nat
  state : ReadState σ

/-- A read of a key, in a run. -/
def Cache.read (reader : Reader σ) (key : Key) (c : Cache σ) : Cache σ where
  phase := c.phase
  hits := if (reader.read key c.state).1.isHit then countHit c.hits key.toBytes else c.hits
  state := (reader.read key c.state).2

/-- The steps of a run. A rebuild raises the writer's flag, puts every payload of a map in any
order, publishes an index of the map and finishes; reads may come between any two steps. -/
inductive Cache.Step (reader : Reader σ) : Cache σ → Cache σ → Prop
  | read {c : Cache σ} (key : Key) : Step reader c (c.read reader key)
  | begin {c : Cache σ} (map : List Placement)
      (idle : c.phase = .fresh ∨ ∃ last, c.phase = .serving last)
      (fits : FitsIn reader.content.format reader.content.mapping.size map) :
      Step reader c { c with
        phase := .rebuilding map []
        state.files := reader.coordinator.update Header.beginRebuild c.state.files }
  | put {c : Cache σ} (map stored : List Placement) (p : Placement)
      (rebuilding : c.phase = .rebuilding map stored) (mem : p ∈ map) :
      Step reader c { c with
        phase := .rebuilding map (p :: stored)
        state.files := ((reader.content.put p.offset p.payload).perform c.state.files).2 }
  | publish {c : Cache σ} (map stored : List Placement) (insertions : List (Bytes × Slot))
      (count : Nat) (files : Files) (rebuilding : c.phase = .rebuilding map stored)
      (complete : ∀ p ∈ map, p ∈ stored) (indexes : Indexes insertions map)
      (success : (IndexBuilder.ofInsertions reader.index.format insertions).publish
        reader.index.mapping c.state.files = .ok count files) :
      Step reader c { c with phase := .published map, state.files := files }
  | finish {c : Cache σ} (map : List Placement) (published : c.phase = .published map) :
      Step reader c {
        phase := .serving map
        hits := fun _ => 0
        state := { c.state with
          files := reader.coordinator.update Header.finishRebuild c.state.files } }

/-- What a cache can come to, from a state with a header of zeros. -/
inductive Cache.Reached (reader : Reader σ) : Cache σ → Prop
  | start (s : ReadState σ) (zero : reader.coordinator.state s.files = ⟨0, 0⟩) :
      Reached reader ⟨.fresh, fun _ => 0, s⟩
  | step {c next : Cache σ} (before : Reached reader c) (step : Step reader c next) :
      Reached reader next

/-! ## Serving a map -/

namespace Reader

/-- The regions of a reader hold a map, and the counts of accesses are those of the reads served:
the index shows a trie of the places, and the content file the payloads. -/
structure Serves (reader : Reader σ) (t : Trie) (map : List Placement) (hits : Bytes → Nat)
    (files : Files) : Prop where
  index : t.Counted reader.index.format (files.view reader.index.mapping) hits
  stores : ∀ key, (t.find? key).map Slot.place = (placed? map key).map Placement.place
  payloads : ∀ p ∈ map, Content.Shown reader.content.format (files.view reader.content.mapping)
    p.offset.toNat p.payload (.ofNat (hits p.key))

theorem tryLookup_of_shown {reader : Reader σ} {t : Trie} {files : Files}
    (h : t.Shown reader.index.format (files.view reader.index.mapping)) (key : Bytes) :
    reader.index.tryLookup files key =
      .ok ((t.locate? reader.index.format key).map fun found =>
        found.1.locatorIn reader.index.format (files.view reader.index.mapping) found.2) :=
  Index.lookupIn_of_shown h key

/-- What there is for a key of a map that is served. -/
theorem Serves.finds {reader : Reader σ} {t : Trie} {map : List Placement} {hits : Bytes → Nat}
    {files : Files} (h : reader.Serves t map hits files)
    (hfits : FitsIn reader.content.format reader.content.mapping.size map) (key : Key) :
    (placed? map key.toBytes = none ∧ reader.finds files key = .absent) ∨
    ∃ p slot node, placed? map key.toBytes = some p ∧
      t.locate? reader.index.format key.toBytes = some (slot, node) ∧ slot.offset = p.offset ∧
      reader.finds files key = .found (slot.locatorIn reader.index.format
        (files.view reader.index.mapping) node) p.payload := by
  have hlookup := tryLookup_of_shown h.index.shown key.toBytes
  have hstores := h.stores key.toBytes
  rw [← t.map_locate? reader.index.format] at hstores
  cases hloc : t.locate? reader.index.format key.toBytes with
  | none =>
      rw [hloc] at hstores hlookup
      refine .inl ⟨by simpa using hstores.symm, ?_⟩
      simp [Reader.finds, hlookup]
  | some found =>
      obtain ⟨slot, node⟩ := found
      rw [hloc, Option.map_some, Option.map_some] at hstores
      rw [hloc, Option.map_some] at hlookup
      obtain ⟨p, hp, hplace⟩ := Option.map_eq_some_iff.mp hstores.symm
      obtain ⟨hmem, _⟩ := placed?_eq_some hp
      obtain ⟨hoffset, hlength⟩ := Prod.mk.inj hplace
      refine .inr ⟨p, slot, node, hp, rfl, hoffset.symm, ?_⟩
      have hpayload := h.payloads p hmem
      rw [hoffset] at hpayload
      have hlen : slot.length.toNat = p.payload.length := by
        rw [← show UInt32.ofNat p.payload.length = slot.length from hlength]
        exact UInt32.toNat_ofNat_of_lt' (hfits.short p hmem)
      have hcopy := Content.payloadIn?_of_shown (l := slot.locatorIn reader.index.format
        (files.view reader.index.mapping) node) hpayload hlen
      simp [Reader.finds, hlookup, hcopy]

/-- Counting an access of a payload changes no byte of the others. -/
theorem payloads_of_touched {n : Nat} {format : Format} {r after : Region n}
    {map : List Placement} {size : Nat} {hits : Bytes → Nat} {p : Placement}
    (hfits : FitsIn format size map) (hp : p ∈ map)
    (h : ∀ q ∈ map, Content.Shown format r q.offset.toNat q.payload (.ofNat (hits q.key)))
    (ht : Content.Touched format r after p.offset.toNat) :
    ∀ q ∈ map, Content.Shown format after q.offset.toNat q.payload
      (.ofNat (countHit hits p.key q.key)) := by
  intro q hq
  by_cases hkey : q.key = p.key
  · obtain rfl := hfits.keys q hq p hp hkey
    rw [countHit, if_pos rfl, UInt32.ofNat_add]
    exact (h q hq).touch ht
  · rw [countHit, if_neg hkey]
    refine (h q hq).congr ?_
    intro i hlow hhigh
    have hapart := hfits.apart q hq p hp hkey i
    apply ht.get_of_outside
    simp only [Placement.Covers, Content.extent] at hapart hhigh
    omega

/-- Serving a read counts it, and serves the map on. -/
theorem Serves.touch {reader : Reader σ} {t : Trie} {map : List Placement} {hits : Bytes → Nat}
    {files after : Files} (h : reader.Serves t map hits files)
    (hfits : FitsIn reader.content.format reader.content.mapping.size map) {key : Bytes}
    {p : Placement} {slot : Slot} {node : Nat} (hp : placed? map key = some p)
    (hloc : t.locate? reader.index.format key = some (slot, node))
    (hoffset : slot.offset = p.offset)
    (hserved : reader.Served files after (slot.locatorIn reader.index.format
      (files.view reader.index.mapping) node)) :
    reader.Serves t map (countHit hits key) after := by
  obtain ⟨hmem, hkey⟩ := placed?_eq_some hp
  have htouched : Content.Touched reader.content.format (files.view reader.content.mapping)
      (after.view reader.content.mapping) p.offset.toNat := by
    rw [← hoffset]
    exact hserved.content
  refine ⟨h.index.touch hloc hserved.index, h.stores, ?_⟩
  rw [← hkey]
  exact payloads_of_touched hfits hmem h.payloads htouched

theorem Serves.congr {reader : Reader σ} {t : Trie} {map : List Placement} {hits : Bytes → Nat}
    {files after : Files} (h : reader.Serves t map hits files)
    (hindex : ∀ i, Index.headerSize ≤ i → (after.view reader.index.mapping).get i =
      (files.view reader.index.mapping).get i)
    (hcontent : after.view reader.content.mapping = files.view reader.content.mapping) :
    reader.Serves t map hits after := by
  refine ⟨h.index.congr hindex, h.stores, ?_⟩
  rw [hcontent]
  exact h.payloads

end Reader

/-! ## The invariant of a run -/

/-- The header in a phase. -/
def Phase.header : Phase → Header
  | fresh | serving _ => ⟨0, 0⟩
  | rebuilding _ _ | published _ => ⟨1, 0⟩

/-- What the regions of a reader hold in a phase. -/
def Phase.Held (reader : Reader σ) (hits : Bytes → Nat) (files : Files) : Phase → Prop
  | fresh => True
  | rebuilding map stored =>
    FitsIn reader.content.format reader.content.mapping.size map ∧
      ∀ p ∈ stored, p ∈ map ∧ Content.Shown reader.content.format
        (files.view reader.content.mapping) p.offset.toNat p.payload 0
  | published map =>
    FitsIn reader.content.format reader.content.mapping.size map ∧
      ∃ t, reader.Serves t map (fun _ => 0) files
  | serving map =>
    FitsIn reader.content.format reader.content.mapping.size map ∧
      ∃ t, reader.Serves t map hits files

theorem Phase.Held.congr {reader : Reader σ} {hits : Bytes → Nat} {files after : Files}
    {phase : Phase} (h : phase.Held reader hits files)
    (hindex : ∀ i, Index.headerSize ≤ i → (after.view reader.index.mapping).get i =
      (files.view reader.index.mapping).get i)
    (hcontent : after.view reader.content.mapping = files.view reader.content.mapping) :
    phase.Held reader hits after := by
  cases phase with
  | fresh => trivial
  | rebuilding map stored =>
      refine ⟨h.1, ?_⟩
      rw [hcontent]
      exact h.2
  | published map =>
      obtain ⟨hfits, t, hserves⟩ := h
      exact ⟨hfits, t, hserves.congr hindex hcontent⟩
  | serving map =>
      obtain ⟨hfits, t, hserves⟩ := h
      exact ⟨hfits, t, hserves.congr hindex hcontent⟩

namespace Cache

/-- What holds of a cache in every run. -/
structure Inv (reader : Reader σ) (c : Cache σ) : Prop where
  header : reader.coordinator.state c.state.files = c.phase.header
  held : c.phase.Held reader c.hits c.state.files

theorem inv_read {reader : Reader σ} (h : reader.Apart) {c : Cache σ} (hc : c.Inv reader)
    (key : Key) : (c.read reader key).Inv reader := by
  have hreads := reader.reads h key c.state
  unfold read
  generalize (reader.read key c.state).1 = outcome at hreads ⊢
  generalize (reader.read key c.state).2 = after at hreads ⊢
  cases hreads with
  | refused reason hent => exact ⟨hc.header, hc.held⟩
  | absent entered after h' hent hfind hsame =>
      exact ⟨hsame.state_eq.trans hc.header,
        hc.held.congr (fun i _ => hsame.index i) hsame.content⟩
  | unusable entered after h' hent hfind hsame =>
      exact ⟨hsame.state_eq.trans hc.header,
        hc.held.congr (fun i _ => hsame.index i) hsame.content⟩
  | served l payload after h' hent hfind hserved =>
      refine ⟨hserved.state_eq.trans hc.header, ?_⟩
      obtain ⟨phase, hits, state⟩ := c
      have hflag := (Header.enter_eq_ok_iff.mp hent).1
      rw [hc.header] at hflag
      cases phase with
      | fresh => trivial
      | rebuilding map stored => cases hflag
      | published map => cases hflag
      | serving map =>
          obtain ⟨hfits, t, hserves⟩ := hc.held
          rcases hserves.finds hfits key with
            ⟨_, habsent⟩ | ⟨p, slot, node, hp, hloc, hoffset, hfound⟩
          · cases habsent.symm.trans hfind
          · cases hfound.symm.trans hfind
            exact ⟨hfits, t, hserves.touch hfits hp hloc hoffset hserved⟩

theorem inv_put {reader : Reader σ} (h : reader.Apart) {map stored : List Placement}
    {p : Placement} {files : Files} (hits : Bytes → Nat)
    (hheld : (Phase.rebuilding map stored).Held reader hits files) (hp : p ∈ map) :
    reader.coordinator.state ((reader.content.put p.offset p.payload).perform files).2 =
        reader.coordinator.state files ∧
      (Phase.rebuilding map (p :: stored)).Held reader hits
        ((reader.content.put p.offset p.payload).perform files).2 := by
  obtain ⟨hfits, hstored⟩ := hheld
  obtain ⟨after, hput, hshown, hframe, hfiles⟩ := Content.put_of_le reader.content files
    (hfits.inside p hp)
  have hperform : ((reader.content.put p.offset p.payload).perform files).2 = after := by
    simp only [Attempt.perform, EStateM.run, hput]
  rw [hperform]
  refine ⟨?_, hfits, ?_⟩
  · apply Reader.state_congr
    intro i _
    rw [Files.view_eq_of_file_eq (hfiles _ (Ne.symm h.files))]
  · intro q hq
    rcases List.mem_cons.mp hq with rfl | hq
    · exact ⟨hp, hshown⟩
    · obtain ⟨hmem, hheld⟩ := hstored q hq
      refine ⟨hmem, ?_⟩
      by_cases hkey : q.key = p.key
      · obtain rfl := hfits.keys q hmem p hp hkey
        exact hshown
      · apply hheld.congr
        intro i hlow hhigh
        have hapart := hfits.apart q hmem p hp hkey i
        simp only [Placement.Covers] at hapart
        exact hframe i (by omega)

theorem inv_publish {reader : Reader σ} (h : reader.Apart) {map stored : List Placement}
    {insertions : List (Bytes × Slot)} {count : Nat} {files after : Files} (hits : Bytes → Nat)
    (hheld : (Phase.rebuilding map stored).Held reader hits files)
    (complete : ∀ p ∈ map, p ∈ stored) (indexes : Indexes insertions map)
    (success : (IndexBuilder.ofInsertions reader.index.format insertions).publish
      reader.index.mapping files = .ok count after) :
    reader.coordinator.state after = reader.coordinator.state files ∧
      (Phase.published map).Held reader hits after := by
  obtain ⟨hfits, hstored⟩ := hheld
  obtain ⟨t, hshown, hfind, hholds⟩ := IndexBuilder.shown_of_publish success
  obtain ⟨hheader, hfiles⟩ := IndexBuilder.frame_of_publish success
  refine ⟨Reader.state_congr fun i hi => hheader i (Nat.lt_of_lt_of_le hi (by decide)), hfits, t,
    Trie.counted_of_holds hshown hholds, ?_, ?_⟩
  · intro key
    rw [hfind key]
    exact indexes key
  · intro p hp
    rw [Files.view_eq_of_file_eq (hfiles _ h.files)]
    exact (hstored p (complete p hp)).2

/-- Every step of a run keeps what holds of a cache. -/
theorem inv_step {reader : Reader σ} (h : reader.Apart) {c next : Cache σ} (hc : c.Inv reader)
    (step : Step reader c next) : next.Inv reader := by
  cases step with
  | read key => exact inv_read h hc key
  | begin map idle fits =>
      refine ⟨?_, fits, fun p hp => nomatch hp⟩
      refine (Reader.state_update h _ _).trans ?_
      rw [hc.header]
      rcases idle with hphase | ⟨last, hphase⟩ <;> rw [hphase] <;> rfl
  | put map stored p rebuilding mem =>
      have hheld := hc.held
      rw [rebuilding] at hheld
      obtain ⟨hstate, hput⟩ := inv_put h c.hits hheld mem
      refine ⟨hstate.trans ?_, hput⟩
      rw [hc.header, rebuilding]
      rfl
  | publish map stored insertions count files rebuilding complete indexes success =>
      have hheld := hc.held
      rw [rebuilding] at hheld
      obtain ⟨hstate, hpublished⟩ := inv_publish h c.hits hheld complete indexes success
      refine ⟨hstate.trans ?_, hpublished⟩
      rw [hc.header, rebuilding]
      rfl
  | finish map published =>
      have hheld := hc.held
      rw [published] at hheld
      obtain ⟨hfits, t, hserves⟩ := hheld
      refine ⟨Reader.state_update h _ _, hfits, t, hserves.congr ?_ ?_⟩
      · intro i hi
        exact Reader.get_update_of_le _ _ (Nat.le_trans (by decide) hi)
      · exact Reader.view_content_update h _ _

theorem Reached.inv {reader : Reader σ} (h : reader.Apart) {c : Cache σ}
    (hc : Reached reader c) : c.Inv reader := by
  induction hc with
  | start s zero => exact ⟨zero, trivial⟩
  | step before step ih => exact inv_step h ih step

end Cache

/-! ## Reads in a run -/

namespace Reader

/-- The count of accesses that is stored for a payload: in front of it, or in the index. -/
def storedCount? (reader : Reader σ) (files : Files) (p : Placement) : Option UInt32 :=
  match reader.index.format with
  | .current => reader.content.accessCount? files p.offset
  | .legacy => (reader.index.lookup? files p.key).bind Locator.accessCount?

/-- While the writer's flag is raised a read is refused, and reports nothing. -/
theorem read_of_raised {reader : Reader σ} {s : ReadState σ}
    (h : reader.coordinator.state s.files = ⟨1, 0⟩) (key : Key) :
    reader.read key s = (.unavailable .writerActive,
        { s with counters := s.counters.refuse .writerActive }) ∧
      ∀ record, (reader.recorded.read key (s.withRecord record)).2.own.1 = record := by
  have hent : (reader.coordinator.state s.files).enter = .error .writerActive := by
    rw [h]
    rfl
  refine ⟨read_of_refused hent, ?_⟩
  intro record
  have hrecorded : (reader.recorded.coordinator.state (s.withRecord record).files).enter =
      .error .writerActive := hent
  rw [read_of_refused hrecorded]
  rfl

/-- A read of a map that is served answers what the map has for the key. -/
theorem Serves.read {reader : Reader σ} (h : reader.Apart) {t : Trie} {map : List Placement}
    {hits : Bytes → Nat} {s : ReadState σ} (hs : reader.Serves t map hits s.files)
    (hfits : FitsIn reader.content.format reader.content.mapping.size map)
    (hidle : reader.coordinator.state s.files = ⟨0, 0⟩) (key : Key) :
    (reader.read key s).1 =
      match placed? map key.toBytes with
      | some p => .hit p.payload
      | none => .miss := by
  have hfinds := hs.finds hfits key
  have hreads := reads h key s
  generalize (reader.read key s).1 = outcome at hreads ⊢
  generalize (reader.read key s).2 = after at hreads
  rcases hfinds with ⟨hnone, habsent⟩ | ⟨p, slot, node, hp, _, _, hfound⟩
  · rw [hnone]
    cases hreads with
    | refused reason hent =>
        rw [hidle] at hent
        cases hent
    | absent entered after h' hent hfind hsame => rfl
    | unusable entered after h' hent hfind hsame => rfl
    | served l payload after h' hent hfind hserved => cases habsent.symm.trans hfind
  · rw [hp]
    cases hreads with
    | refused reason hent =>
        rw [hidle] at hent
        cases hent
    | absent entered after h' hent hfind hsame => cases hfound.symm.trans hfind
    | unusable entered after h' hent hfind hsame => cases hfound.symm.trans hfind
    | served l payload after h' hent hfind hserved =>
        cases hfound.symm.trans hfind
        rfl

theorem Serves.storedCount? {reader : Reader σ} (h : reader.Apart) {t : Trie}
    {map : List Placement} {hits : Bytes → Nat} {files : Files}
    (hs : reader.Serves t map hits files) {p : Placement} (hp : placed? map p.key = some p) :
    reader.storedCount? files p = some (.ofNat (hits p.key)) := by
  have hpayload := hs.payloads p (placed?_eq_some hp).1
  rw [h.layout] at hpayload
  have hlookup := tryLookup_of_shown hs.index.shown p.key
  have hstores := hs.stores p.key
  have hcounts := hs.index.counts
  rw [← t.map_locate? reader.index.format, hp] at hstores
  unfold Reader.storedCount?
  cases hformat : reader.index.format with
  | current =>
      rw [Content.accessCount?, h.layout, hformat]
      exact hpayload.counted hformat
  | legacy =>
      rw [hformat] at hstores hcounts hlookup
      cases hloc : t.locate? .legacy p.key with
      | none =>
          rw [hloc] at hstores
          cases hstores
      | some found =>
          rw [hloc, Option.map_some] at hlookup
          simp only [Index.lookup?, hlookup, Option.bind_some, Locator.accessCount?,
            Slot.locatorIn, Option.map_some, hcounts rfl _ _ _ hloc, Option.getD_some]

end Reader

namespace Cache

/-- In every run, a read while the cache is rebuilt is refused, changes no file and is not
reported, and a read between rebuilds answers what the map has that was published last; the stored
count of accesses of each key is that of the reads served for it since, modulo 2 to the 32. -/
theorem read_of_reached {reader : Reader σ} (h : reader.Apart) {c : Cache σ}
    (hc : Reached reader c) (key : Key) :
    match c.phase with
    | .fresh => True
    | .rebuilding _ _ | .published _ =>
      reader.read key c.state = (.unavailable .writerActive,
          { c.state with counters := c.state.counters.refuse .writerActive }) ∧
        ∀ record, (reader.recorded.read key (c.state.withRecord record)).2.own.1 = record
    | .serving map =>
      (reader.read key c.state).1 =
          (match placed? map key.toBytes with
          | some p => .hit p.payload
          | none => .miss) ∧
        ∀ p ∈ map, reader.storedCount? c.state.files p = some (.ofNat (c.hits p.key)) := by
  obtain ⟨hheader, hheld⟩ := hc.inv h
  obtain ⟨phase, hits, state⟩ := c
  simp only at hheader hheld ⊢
  cases phase with
  | fresh => trivial
  | rebuilding map stored =>
      rw [Phase.header] at hheader
      exact Reader.read_of_raised hheader key
  | published map =>
      rw [Phase.header] at hheader
      exact Reader.read_of_raised hheader key
  | serving map =>
      rw [Phase.header] at hheader
      obtain ⟨hfits, t, hserves⟩ := hheld
      refine ⟨hserves.read h hfits hheader key, ?_⟩
      intro p hp
      refine hserves.storedCount? h ?_
      cases hplaced : placed? map p.key with
      | none =>
          have hnone := List.find?_eq_none.mp hplaced p hp
          simp at hnone
      | some q =>
          obtain ⟨hmem, hkey⟩ := placed?_eq_some hplaced
          rw [hfits.keys q hmem p hp hkey]

/-- A reader of the current layout, which drops its reports. -/
def sampleReader : Reader Unit where
  index := ⟨⟨"index", ["index"], 64⟩, .current⟩
  content := ⟨⟨"content", ["content"], 16⟩, .current⟩
  channel := .discard

/-- A payload of two bytes for a key. -/
def samplePlacement : Placement := ⟨(⟨1, 2, 3⟩ : Key).toBytes, 4, [7, 9]⟩

/-- The files while the payload is stored and not published yet. -/
def sampleFiles : Files :=
  ((sampleReader.content.put samplePlacement.offset samplePlacement.payload).perform
    (sampleReader.coordinator.update Header.beginRebuild .empty)).2

theorem read_of_reached_sample :
    ∃ c, Reached sampleReader c ∧ c.phase = .serving [samplePlacement] ∧
      (sampleReader.read ⟨1, 2, 3⟩ c.state).1 = .hit [7, 9] := by
  have hapart : sampleReader.Apart :=
    ⟨by decide, rfl, by decide, fun _ _ => rfl, fun _ _ => rfl⟩
  have hfits : FitsIn .current 16 [samplePlacement] := by
    refine ⟨?_, ?_, ?_, ?_⟩ <;>
      simp [samplePlacement, Content.extent, Format.counterSize, UInt32.size]
  have hindexes : Indexes [(samplePlacement.key, ⟨4, 2, 0⟩)] [samplePlacement] := by
    intro key
    by_cases hkey : samplePlacement.key = key
    · cases hkey
      rfl
    · have hbeq : (key == samplePlacement.key) = false := by simpa using Ne.symm hkey
      simp [lastInserted?, placed?, List.lookup_cons, hkey, hbeq]
  have hpublish : (IndexBuilder.ofInsertions .current [(samplePlacement.key, ⟨4, 2, 0⟩)]).publish
      sampleReader.index.mapping sampleFiles = .ok 30 _ :=
    Attempt.eq_ok_of_perform (by decide +kernel)
  have hstart : Reached sampleReader ⟨.fresh, fun _ => 0, ⟨.empty, {}, ()⟩⟩ :=
    .start _ (by decide +kernel)
  have hbegin := hstart.step (.begin [samplePlacement] (.inl rfl) hfits)
  have hput := hbegin.step (.put _ _ samplePlacement rfl (by simp))
  have hpublished := hput.step (.publish _ _ _ 30 _ rfl (by simp) hindexes hpublish)
  have hserving := hpublished.step (.finish _ rfl)
  exact ⟨_, hserving, rfl, (read_of_reached hapart hserving ⟨1, 2, 3⟩).1⟩

end Cache

end Columnlet
