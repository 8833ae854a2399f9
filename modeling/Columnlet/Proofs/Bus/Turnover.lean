import Columnlet.Proofs.Bus.Fifo
import Columnlet.Proofs.Bus.Poll

/-! # Emptying a bus

The file of a bus is opened again and again, through windows of any sizes, and is emptied now and
then; writers fill or abandon the records that they have reserved, or die. Emptying clears the bytes
that the window of the emptying writer shows: among the records that begin there, only those are
answered that have been filled since. What stands behind that window stays, and is answered once the
limit has passed it again. -/

namespace Columnlet

namespace Bus

variable {n m : Nat} {recordSize : UInt64} {r s after : Region n}

/-! ## Windows onto one file -/

/-- The most bytes that a window can have. -/
def widest : Nat := UInt64.size - 1

theorem Grid.le_widest (hg : Grid n recordSize) : n ≤ widest := Nat.le_sub_one_of_lt hg.bound

theorem limitIn_resize (hn : headerSize ≤ n) (hm : n ≤ m) : limitIn (r.resize m) = limitIn r := by
  obtain ⟨limit, hlimit⟩ := r.aligned?_of_le (show 0 % 8 = 0 from rfl) hn
  rw [limitIn, limitIn, hlimit, Region.aligned?_resize hm hlimit]

/-! ## Preparing -/

/-- A bus that is emptied has its limit at the first record, and zeros up to its end. -/
theorem zero_of_prepareIn_false {b : Bus} {r after : Region b.mapping.size}
    (hg : Grid b.mapping.size b.recordSize) (h : b.prepareIn false r = .ok () after) :
    (limitIn after).toNat = slotAt b.recordSize 0 ∧
      ∀ k, headerSize ≤ k → k < b.mapping.size → after.get k = 0 := by
  have hroom := hg.room
  obtain ⟨cleared, hclear, rfl⟩ := exists_cleared_of_prepareIn h
  obtain ⟨-, hkept⟩ := setLimit_spec cleared headerSize hg.headerSize_le
  refine ⟨(reserved_setLimit hg cleared).limit, ?_⟩
  intro k hlow hhigh
  rw [hkept k hlow, Region.get_of_zero? hclear, if_pos ⟨hlow, by omega⟩]

/-- A bus whose records are kept has its limit between records, and no byte behind it changes. -/
theorem limit_of_prepareIn_true {b : Bus} {r after : Region b.mapping.size}
    (hg : Grid b.mapping.size b.recordSize) (h : b.prepareIn true r = .ok () after) :
    (∃ i, (limitIn after).toNat = slotAt b.recordSize i) ∧
      ∀ k, headerSize ≤ k → after.get k = r.get k := by
  have hroom := hg.room
  obtain ⟨count, hreserved⟩ := reserved_of_prepareIn hg h
  refine ⟨⟨count, hreserved.limit⟩, ?_⟩
  rcases prepareIn_append_cases h with ⟨-, rfl⟩ | ⟨rfl, -⟩
  · exact (setLimit_spec r headerSize (by omega)).2
  · exact fun _ _ => rfl

/-! ## Fresh records -/

theorem holds_one_of_aligned? {record : Nat} (h : r.aligned? 4 record = some 1) :
    r.Holds record one := by
  unfold Region.aligned? at h
  split at h
  · obtain ⟨bs, hbs, hone⟩ := Option.map_eq_some_iff.mp h
    obtain ⟨hlen, hholds⟩ := Region.read?_eq_some_iff.mp hbs
    rw [← Bytes.littleEndian_littleNat bs, hlen, hone] at hholds
    exact hholds
  · cases h

/-- If a record is committed and not rolled back, it holds a payload that it has been filled
with. -/
def Fresh (recordSize : UInt64) (filled : List (Nat × Bytes)) (r : Region n) (i : Nat) : Prop :=
  r.aligned? 4 (slotAt recordSize i) = some 1 →
    r.little? 4 (slotAt recordSize i + rollbackField) = some 0 →
      ∃ payload, (slotAt recordSize i, payload) ∈ filled ∧
        payload.length ≤ recordSize.toNat ∧ r.Holds (slotAt recordSize i) (recordBytes payload)

variable {filled : List (Nat × Bytes)} {i : Nat}

theorem fresh_of_zero (h : r.get (slotAt recordSize i) = 0) : Fresh recordSize filled r i := by
  intro hcommit
  have hfirst := (Region.holds_iff.mp (holds_one_of_aligned? hcommit)).2 0 (by decide)
  rw [Nat.add_zero, h] at hfirst
  exact absurd hfirst (by decide)

theorem Fresh.cons (h : Fresh recordSize filled r i) (entry : Nat × Bytes) :
    Fresh recordSize (entry :: filled) r i := by
  intro hcommit hrollback
  obtain ⟨payload, hmem, hrecord⟩ := h hcommit hrollback
  exact ⟨payload, List.mem_cons_of_mem _ hmem, hrecord⟩

/-- Whether a record is fresh stands in its bytes. -/
theorem Fresh.congr (h : Fresh recordSize filled r i)
    (heq : ∀ k, slotAt recordSize i ≤ k → k < slotAt recordSize i + strideOf recordSize →
      after.get k = r.get k) : Fresh recordSize filled after i := by
  have hsixteen := sixteen_le_strideOf recordSize
  have hcover := add_le_strideOf recordSize
  intro hcommit hrollback
  rw [Region.aligned?_congr fun k hlow hhigh => heq k hlow (by omega)] at hcommit
  rw [Region.little?_congr (r := r) fun k hlow hhigh => heq k (by omega)
    (by rw [rollbackField] at hhigh; omega)] at hrollback
  obtain ⟨payload, hmem, hlen, hholds⟩ := h hcommit hrollback
  refine ⟨payload, hmem, hlen, hholds.congr ?_⟩
  intro k hlow hhigh
  rw [length_recordBytes] at hhigh
  exact heq k hlow (by omega)

theorem Fresh.of_onlyRollsBack (h : Fresh recordSize filled r i)
    (hwrites : OnlyRollsBack recordSize r s) : Fresh recordSize filled s i := by
  intro hcommit
  have hbefore : r.aligned? 4 (slotAt recordSize i) = some 1 := by rw [← hwrites.commit, hcommit]
  exact h.congr (hwrites.committed i hbefore) hcommit

/-- What a record shows that is fresh has been filled in. -/
theorem Shows.eq_of_fresh {payload : Bytes} (h : Shows recordSize r i payload)
    (hfresh : Fresh recordSize filled r i) :
    ∃ whole, (slotAt recordSize i, whole) ∈ filled ∧
      payload = whole.take (whole.length % UInt32.size) := by
  obtain ⟨whole, hmem, hlen, hholds⟩ := hfresh h.commit h.rollback
  obtain ⟨length, hlength, hcontent⟩ := h.content
  have hmod := slotAt_mod recordSize i
  have hcut : whole.length % UInt32.size ≤ whole.length := Nat.mod_le ..
  obtain ⟨-, -, hsize, hpayload⟩ := fields_of_holds (by omega) hholds
  cases hsize.symm.trans hlength
  rw [Nat.min_eq_left (Nat.le_trans hcut (Nat.le_trans hlen (le_payloadRoom recordSize))),
    hpayload.read?_take hcut] at hcontent
  exact ⟨whole, hmem, (Option.some.inj hcontent).symm⟩

end Bus

/-! ## Runs -/

open Bus (slotAt strideOf)

/-- A bus file in a run: the files, the writers opened so far, the records that one of them has
reserved and has not come back to, how many bytes were shown by the window that last emptied the
file, what has been filled in since and into which record, and the readers. -/
structure Turnover where
  files : Files
  writers : List Bus := []
  reserved : List (Bus × Nat) := []
  emptied : Nat := 0
  filled : List (Nat × Bytes) := []
  sessions : List Session := []

namespace Turnover

/-- The steps of a run over one file. A record is filled or abandoned at any time after it has been
reserved, and only once, or never; every reader may poll at any time; opening and reserving may
fail. -/
inductive Step (l : Location) (recordSize : UInt64) : Turnover → Turnover → Prop
  | empty {t : Turnover} (path : String) (fileSize : UInt64) (b : Bus) (files : Files)
      (room : Bus.headerSize + (Bus.recordHeaderSize + recordSize.toNat + 7) / 8 * 8 ≤
        fileSize.toNat)
      (success : Bus.openWriter path fileSize recordSize false t.files = .ok b files)
      (place : b.mapping.location = l) :
      Step l recordSize t { t with
        files
        writers := b :: t.writers
        emptied := fileSize.toNat
        filled := []
        sessions := t.sessions.map fun s => { s with current := false } }
  | append {t : Turnover} (path : String) (fileSize : UInt64) (b : Bus) (files : Files)
      (room : Bus.headerSize + (Bus.recordHeaderSize + recordSize.toNat + 7) / 8 * 8 ≤
        fileSize.toNat)
      (success : Bus.openWriter path fileSize recordSize true t.files = .ok b files)
      (place : b.mapping.location = l) :
      Step l recordSize t { t with files, writers := b :: t.writers }
  | failWriter {t : Turnover} (path : String) (fileSize : UInt64) (append : Bool) (e : Error)
      (files : Files)
      (failure : Bus.openWriter path fileSize recordSize append t.files = .error e files) :
      Step l recordSize t { t with files }
  | reserve {t : Turnover} (b : Bus) (record : Nat) (files : Files) (writer : b ∈ t.writers)
      (success : b.mapping.attempt (Bus.reserveIn b.stride) t.files = .ok record files) :
      Step l recordSize t { t with files, reserved := (b, record) :: t.reserved }
  | refuse {t : Turnover} (b : Bus) (e : Error) (files : Files) (writer : b ∈ t.writers)
      (failure : b.mapping.attempt (Bus.reserveIn b.stride) t.files = .error e files) :
      Step l recordSize t { t with files }
  | fill {t : Turnover} (b : Bus) (record : Nat) (payload : Bytes) (files : Files)
      (reserved : (b, record) ∈ t.reserved) (fits : payload.length ≤ recordSize.toNat)
      (success : b.mapping.attempt (Bus.fillIn b.stride record payload) t.files = .ok () files) :
      Step l recordSize t { t with
        files
        reserved := t.reserved.erase (b, record)
        filled := (record, payload) :: t.filled }
  | abandon {t : Turnover} (b : Bus) (record : Nat) (reserved : (b, record) ∈ t.reserved) :
      Step l recordSize t { t with
        files := b.mapping.modify (Bus.abandonIn record) t.files
        reserved := t.reserved.erase (b, record) }
  | openReader {t : Turnover} (path : String) (fileSize : UInt64) (timeout : Nat)
      (reader : BusReader) (files : Files)
      (room : Bus.headerSize + (Bus.recordHeaderSize + recordSize.toNat + 7) / 8 * 8 ≤
        fileSize.toNat)
      (success : BusReader.openFile path fileSize recordSize timeout t.files = .ok reader files)
      (place : reader.bus.mapping.location = l) :
      Step l recordSize t { t with files, sessions := { reader } :: t.sessions }
  | failReader {t : Turnover} (path : String) (fileSize : UInt64) (timeout : Nat) (e : Error)
      (files : Files)
      (failure : BusReader.openFile path fileSize recordSize timeout t.files = .error e files) :
      Step l recordSize t { t with files }
  | poll {t : Turnover} (i : Nat) (s : Session) (now : Nat) (session : t.sessions[i]? = some s) :
      Step l recordSize t { t with
        files := (s.reader.poll now t.files).2.2
        sessions := t.sessions.set i (s.poll now t.files) }

/-- What a bus file can come to, from any files. -/
inductive Reached (l : Location) (recordSize : UInt64) : Turnover → Prop
  | start (files : Files) : Reached l recordSize { files }
  | step {t next : Turnover} (before : Reached l recordSize t) (step : Step l recordSize t next) :
      Reached l recordSize next

/-! ## The invariant -/

/-- A bus is a window onto the file, with room for a record. -/
structure Shown (l : Location) (recordSize : UInt64) (b : Bus) : Prop where
  place : b.mapping.location = l
  size : b.recordSize = recordSize
  grid : Bus.Grid b.mapping.size recordSize

/-- The bytes of the file. -/
def bytes (files : Files) (l : Location) : Region Bus.widest := files.region l Bus.widest

/-- Once there is a writer, the limit stands between records, as the reserved records and the
readers do; and the records are fresh that begin in what has been emptied. -/
structure Inv (l : Location) (recordSize : UInt64) (t : Turnover) : Prop where
  limit : t.writers ≠ [] → ∃ i, (Bus.limitIn (bytes t.files l)).toNat = slotAt recordSize i
  writers : ∀ b ∈ t.writers, Shown l recordSize b
  reserved : ∀ b record, (b, record) ∈ t.reserved → Shown l recordSize b ∧
    ∃ i, record = slotAt recordSize i ∧ record + strideOf recordSize ≤ b.mapping.size
  sessions : ∀ s ∈ t.sessions, Shown l recordSize s.reader.bus ∧
    ∃ i, s.reader.cursor.position = slotAt recordSize i
  fresh : ∀ i, slotAt recordSize i < t.emptied →
    Bus.Fresh recordSize t.filled (bytes t.files l) i

variable {l : Location} {recordSize : UInt64} {files : Files} {b : Bus} {t : Turnover}
  {reserved : List (Bus × Nat)}

theorem Shown.stride (h : Shown l recordSize b) : b.stride = strideOf recordSize := by
  rw [Bus.stride, h.size]

theorem Shown.bytes_eq (h : Shown l recordSize b) (files : Files) :
    bytes files l = (files.view b.mapping).resize Bus.widest := by
  rw [← h.place]
  rfl

theorem Shown.bytes_commit (h : Shown l recordSize b) (files : Files)
    (r : Region b.mapping.size) : bytes (files.commit b.mapping r) l = r.resize Bus.widest := by
  rw [h.bytes_eq, Files.view_commit_self]

theorem Shown.limitIn_eq (h : Shown l recordSize b) (files : Files) :
    Bus.limitIn (bytes files l) = Bus.limitIn (files.view b.mapping) := by
  have hroom := h.grid.room
  rw [h.bytes_eq, Bus.limitIn_resize (by omega) h.grid.le_widest]

theorem Shown.get_commit (h : Shown l recordSize b) {r : Region b.mapping.size} {k : Nat}
    (hk : r.get k = (files.view b.mapping).get k) :
    (bytes (files.commit b.mapping r) l).get k = (bytes files l).get k := by
  rw [h.bytes_commit, h.bytes_eq, Region.get_resize, Region.get_resize, hk]

theorem bytes_of_sameBytes (h : t.files.SameBytes files) : bytes files l = bytes t.files l :=
  h.region_eq l Bus.widest

theorem Inv.of_sameBytes (h : Inv l recordSize t) (hsame : t.files.SameBytes files) :
    Inv l recordSize { t with files } := by
  have hbytes := bytes_of_sameBytes (l := l) hsame
  refine ⟨?_, h.writers, h.reserved, h.sessions, ?_⟩
  · rw [hbytes]
    exact h.limit
  · rw [hbytes]
    exact h.fresh

/-- Moving the limit to another record changes none. -/
theorem Inv.moveLimit (h : Inv l recordSize t)
    (hlimit : ∃ i, (Bus.limitIn (bytes files l)).toNat = slotAt recordSize i)
    (hkept : ∀ k, Bus.headerSize ≤ k → (bytes files l).get k = (bytes t.files l).get k) :
    Inv l recordSize { t with files } := by
  refine ⟨fun _ => hlimit, h.writers, h.reserved, h.sessions, ?_⟩
  intro i hi
  refine (h.fresh i hi).congr ?_
  intro k hlow _
  exact hkept k (Nat.le_trans (Nat.le_add_right ..) hlow)

/-- Writing into one record leaves the others and the limit as they are. -/
theorem Inv.write (h : Inv l recordSize t) {j : Nat} {filled : List (Nat × Bytes)}
    (hreserved : ∀ x ∈ reserved, x ∈ t.reserved)
    (hkept : ∀ k, k < slotAt recordSize j ∨ slotAt recordSize j + strideOf recordSize ≤ k →
      (bytes files l).get k = (bytes t.files l).get k)
    (hfilled : ∀ i, Bus.Fresh recordSize t.filled (bytes t.files l) i →
      Bus.Fresh recordSize filled (bytes t.files l) i)
    (hj : Bus.Fresh recordSize filled (bytes files l) j) :
    Inv l recordSize { t with files, reserved, filled } := by
  have hlow : Bus.headerSize ≤ slotAt recordSize j := Nat.le_add_right ..
  have hlimit : Bus.limitIn (bytes files l) = Bus.limitIn (bytes t.files l) :=
    Bus.limitIn_congr fun k hk => hkept k (by omega)
  refine ⟨?_, h.writers, ?_, h.sessions, ?_⟩
  · rw [hlimit]
    exact h.limit
  · intro b record hmem
    exact h.reserved b record (hreserved _ hmem)
  · intro i hi
    by_cases hij : i = j
    · rw [hij]
      exact hj
    · refine (hfilled i (h.fresh i hi)).congr ?_
      intro k hlow hhigh
      have hapart := Bus.slotAt_apart recordSize hij
      exact hkept k (by omega)

/-! ## Steps -/

theorem Inv.addWriter (h : Inv l recordSize t) (hb : Shown l recordSize b)
    (hlimit : ∃ i, (Bus.limitIn (bytes t.files l)).toNat = slotAt recordSize i) :
    Inv l recordSize { t with writers := b :: t.writers } := by
  refine ⟨fun _ => hlimit, ?_, h.reserved, h.sessions, h.fresh⟩
  intro other hother
  rcases List.mem_cons.mp hother with rfl | hold
  · exact hb
  · exact h.writers other hold

/-- Emptying a bus makes every record fresh that begins in the window. -/
theorem Inv.empty {path : String} {fileSize : UInt64} (hg : Bus.Grid fileSize.toNat recordSize)
    (h : Inv l recordSize t)
    (hopen : Bus.openWriter path fileSize recordSize false t.files = .ok b files)
    (hplace : b.mapping.location = l) :
    Inv l recordSize { t with
      files
      writers := b :: t.writers
      emptied := fileSize.toNat
      filled := []
      sessions := t.sessions.map fun s => { s with current := false } } := by
  obtain ⟨place, opened, r, rfl, rfl, -, hprepare⟩ := Bus.openWriter_eq_ok hopen
  have hb : Shown l recordSize ⟨⟨path, place, fileSize.toNat⟩, recordSize⟩ := ⟨hplace, rfl, hg⟩
  obtain ⟨hfirst, hzero⟩ := Bus.zero_of_prepareIn_false hg hprepare
  rw [← Files.view_commit_self opened ⟨path, place, fileSize.toNat⟩ r, ← hb.limitIn_eq] at hfirst
  have hemptied : Inv l recordSize { t with
      files := opened.commit ⟨path, place, fileSize.toNat⟩ r
      emptied := fileSize.toNat
      filled := []
      sessions := t.sessions.map fun s => { s with current := false } } := by
    refine ⟨fun _ => ⟨0, hfirst⟩, h.writers, h.reserved, ?_, ?_⟩
    · intro s hs
      obtain ⟨old, hold, rfl⟩ := List.mem_map.mp hs
      exact h.sessions old hold
    · intro i hi
      apply Bus.fresh_of_zero
      rw [hb.bytes_commit, Region.get_resize]
      exact hzero _ (Nat.le_add_right ..) hi
  exact hemptied.addWriter hb ⟨0, hfirst⟩

/-- Opening a bus for writing with its records checks the limit and leaves the records. -/
theorem Inv.append {path : String} {fileSize : UInt64} (hg : Bus.Grid fileSize.toNat recordSize)
    (h : Inv l recordSize t)
    (hopen : Bus.openWriter path fileSize recordSize true t.files = .ok b files)
    (hplace : b.mapping.location = l) :
    Inv l recordSize { t with files, writers := b :: t.writers } := by
  obtain ⟨place, opened, r, rfl, rfl, hquiet, hprepare⟩ := Bus.openWriter_eq_ok hopen
  have hb : Shown l recordSize ⟨⟨path, place, fileSize.toNat⟩, recordSize⟩ := ⟨hplace, rfl, hg⟩
  obtain ⟨hlimit, hkept⟩ := Bus.limit_of_prepareIn_true hg hprepare
  rw [← Files.view_commit_self opened ⟨path, place, fileSize.toNat⟩ r, ← hb.limitIn_eq] at hlimit
  have hmoved : Inv l recordSize
      { t with files := opened.commit ⟨path, place, fileSize.toNat⟩ r } := by
    refine h.moveLimit hlimit ?_
    intro k hk
    rw [← bytes_of_sameBytes hquiet.bytes]
    exact hb.get_commit (hkept k hk)
  exact hmoved.addWriter hb hlimit

theorem Inv.reserve {record : Nat} (h : Inv l recordSize t) (hb : b ∈ t.writers)
    (hreserve : b.mapping.attempt (Bus.reserveIn b.stride) t.files = .ok record files) :
    Inv l recordSize { t with files, reserved := (b, record) :: t.reserved } := by
  have hshown := h.writers b hb
  have hbound := hshown.grid.bound
  have hroom := hshown.grid.room
  obtain ⟨i, hi⟩ := h.limit (List.ne_nil_of_mem hb)
  rw [hshown.limitIn_eq] at hi
  obtain ⟨r, hrun, rfl⟩ := Mapping.attempt_eq_ok_iff.mp hreserve
  rw [hshown.stride] at hrun
  by_cases hfull : b.mapping.size <
      (Bus.limitIn (t.files.view b.mapping)).toNat + strideOf recordSize
  · cases (Bus.reserveIn_of_lt hfull).symm.trans hrun
  · have hle := Nat.le_of_not_lt hfull
    cases (Bus.reserveIn_of_le hle).symm.trans hrun
    rw [hi] at hle ⊢
    obtain ⟨hset, hkept⟩ := Bus.setLimit_spec (t.files.view b.mapping)
      (slotAt recordSize i + strideOf recordSize) (by omega)
    have hlimit : ∃ j, (Bus.limitIn (bytes (t.files.commit b.mapping (Bus.setLimit
        (t.files.view b.mapping) (slotAt recordSize i + strideOf recordSize))) l)).toNat =
          slotAt recordSize j := by
      refine ⟨i + 1, ?_⟩
      rw [hshown.limitIn_eq, Files.view_commit_self, Bus.limitIn_of_holds hset (by omega),
        Bus.slotAt_succ]
    have hmoved := h.moveLimit hlimit fun k hk => hshown.get_commit (hkept k hk)
    refine ⟨hmoved.limit, hmoved.writers, ?_, hmoved.sessions, hmoved.fresh⟩
    intro other record hmem
    rcases List.mem_cons.mp hmem with hnew | hold
    · cases hnew
      exact ⟨hshown, i, rfl, hle⟩
    · exact h.reserved other record hold

theorem sameBytes_of_refuse {e : Error} (hshown : Shown l recordSize b)
    (hrefuse : b.mapping.attempt (Bus.reserveIn b.stride) t.files = .error e files) :
    t.files.SameBytes files := by
  rw [hshown.stride] at hrefuse
  by_cases hfull : b.mapping.size <
      (Bus.limitIn (t.files.view b.mapping)).toNat + strideOf recordSize
  · cases (Mapping.attempt_of_error (Bus.reserveIn_of_lt hfull)).symm.trans hrefuse
    exact t.files.sameBytes_commit_view _
  · cases (Mapping.attempt_of_ok (Bus.reserveIn_of_le (Nat.le_of_not_lt hfull))).symm.trans hrefuse

theorem Inv.fill {record : Nat} {payload : Bytes} (h : Inv l recordSize t)
    (hreserved : (b, record) ∈ t.reserved) (hlen : payload.length ≤ recordSize.toNat)
    (hfill : b.mapping.attempt (Bus.fillIn b.stride record payload) t.files = .ok () files) :
    Inv l recordSize { t with
      files
      reserved := t.reserved.erase (b, record)
      filled := (record, payload) :: t.filled } := by
  obtain ⟨hshown, i, rfl, hroom⟩ := h.reserved b record hreserved
  have hmod := Bus.slotAt_mod recordSize i
  obtain ⟨r, hrun, rfl⟩ := Mapping.attempt_eq_ok_iff.mp hfill
  rw [hshown.stride] at hrun
  obtain ⟨after, hafter, hholds, houtside⟩ := Bus.fillIn_spec (t.files.view b.mapping) hlen
    (by omega) hroom
  cases hafter.symm.trans hrun
  refine h.write (j := i) (fun _ => List.mem_of_mem_erase) ?_
    (fun _ hi => hi.cons _) ?_
  · intro k hk
    exact hshown.get_commit (houtside k hk)
  · intro _ _
    refine ⟨payload, List.mem_cons_self, hlen, ?_⟩
    rw [hshown.bytes_commit]
    exact hholds.resize hshown.grid.le_widest

theorem Inv.abandon {record : Nat} (h : Inv l recordSize t)
    (hreserved : (b, record) ∈ t.reserved) :
    Inv l recordSize { t with
      files := b.mapping.modify (Bus.abandonIn record) t.files
      reserved := t.reserved.erase (b, record) } := by
  obtain ⟨hshown, i, rfl, hroom⟩ := h.reserved b record hreserved
  have hmod := Bus.slotAt_mod recordSize i
  have hsixteen := Bus.sixteen_le_strideOf recordSize
  obtain ⟨-, hback, houtside⟩ := Bus.abandonIn_spec (t.files.view b.mapping)
    (show slotAt recordSize i % 4 = 0 by omega) (by omega)
  refine h.write (j := i) (fun _ => List.mem_of_mem_erase) ?_ (fun _ hi => hi) ?_
  · intro k hk
    exact hshown.get_commit (houtside k (by omega))
  · intro _ hzero
    rw [Mapping.modify, hshown.bytes_commit,
      Region.little?_resize hshown.grid.le_widest hback] at hzero
    cases hzero

/-- What a poll of a session comes to, in the bytes of the file. -/
theorem traversed_poll {s : Session} {i : Nat} (hshown : Shown l recordSize s.reader.bus)
    (hposition : s.reader.cursor.position = slotAt recordSize i) (now : Nat) (files : Files) :
    Bus.Traversed recordSize (bytes files l) i (s.reader.poll now files).1
      (s.reader.poll now files).2.1.cursor (bytes (s.reader.poll now files).2.2 l) := by
  have htraversed := Bus.traversed_of_pollIn (r := files.view s.reader.bus.mapping)
    hshown.grid.le_widest s.reader.timeout now hposition
  rw [← hshown.bytes_eq, ← hshown.stride, ← hshown.bytes_commit files] at htraversed
  exact htraversed

theorem Inv.poll {i : Nat} {s : Session} (h : Inv l recordSize t)
    (hs : t.sessions[i]? = some s) (now : Nat) :
    Inv l recordSize { t with
      files := (s.reader.poll now t.files).2.2
      sessions := t.sessions.set i (s.poll now t.files) } := by
  obtain ⟨hshown, j, hposition⟩ := h.sessions s (List.mem_of_getElem? hs)
  have htraversed := traversed_poll hshown hposition now t.files
  refine ⟨?_, h.writers, h.reserved, ?_, ?_⟩
  · rw [htraversed.writes.limitIn_eq]
    exact h.limit
  · intro other hother
    rcases List.mem_or_eq_of_mem_set hother with hold | rfl
    · exact h.sessions other hold
    · obtain ⟨k, -, hnext⟩ := htraversed.position
      exact ⟨hshown, k, hnext⟩
  · intro k hk
    exact (h.fresh k hk).of_onlyRollsBack htraversed.writes

theorem Inv.step {next : Turnover} (h : Inv l recordSize t) (hstep : Step l recordSize t next) :
    Inv l recordSize next := by
  cases hstep with
  | empty path fileSize b files room success place =>
      exact h.empty ⟨room, fileSize.toNat_lt_size⟩ success place
  | append path fileSize b files room success place =>
      exact h.append ⟨room, fileSize.toNat_lt_size⟩ success place
  | failWriter path fileSize append e files failure =>
      exact h.of_sameBytes (Bus.sameBytes_of_openWriter failure)
  | reserve b record files writer success => exact h.reserve writer success
  | refuse b e files writer failure =>
      exact h.of_sameBytes (sameBytes_of_refuse (h.writers b writer) failure)
  | fill b record payload files reserved fits success => exact h.fill reserved fits success
  | abandon b record reserved => exact h.abandon reserved
  | openReader path fileSize timeout reader files room success place =>
      obtain ⟨⟨l', rfl⟩, hsame⟩ := Bus.openReader_eq_ok success
      obtain ⟨hlimit, hwriters, hreserved, hsessions, hfresh⟩ := h.of_sameBytes hsame
      refine ⟨hlimit, hwriters, hreserved, ?_, hfresh⟩
      intro s hs
      rcases List.mem_cons.mp hs with rfl | hold
      · exact ⟨⟨place, rfl, ⟨room, fileSize.toNat_lt_size⟩⟩, 0,
          by simp [Cursor.start, slotAt]⟩
      · exact hsessions s hold
  | failReader path fileSize timeout e files failure =>
      exact h.of_sameBytes (Bus.sameBytes_of_openReader failure)
  | poll i s now session => exact h.poll session now

theorem Reached.inv (h : Reached l recordSize t) : Inv l recordSize t := by
  induction h with
  | start files => constructor <;> simp
  | step _ hstep ih => exact ih.step hstep

/-- In every run, a record that begins in the window through which the bus was last emptied is
answered only what it has been filled with since. So is every record, if the window of the reader is
no larger than that one. -/
theorem filled_of_poll (h : Reached l recordSize t) {s : Session} (hs : s ∈ t.sessions) (now : Nat)
    {payload : Bytes} {reader : BusReader}
    (hpoll : s.reader.poll now t.files = (some payload, reader, files)) :
    ∃ record, record < s.reader.bus.mapping.size ∧
      reader.cursor.position = record + strideOf recordSize ∧
      (record < t.emptied → ∃ whole, (record, whole) ∈ t.filled ∧
        payload = whole.take (whole.length % UInt32.size)) := by
  have hinv := h.inv
  obtain ⟨hshown, i, hposition⟩ := hinv.sessions s hs
  have htraversed := traversed_poll hshown hposition now t.files
  obtain ⟨record, -, hinside, hnext⟩ := BusReader.record_of_poll hpoll
  rw [hshown.stride] at hnext
  rw [hpoll] at htraversed
  obtain ⟨k, hslot, hshows⟩ : ∃ k, reader.cursor.position = slotAt recordSize (k + 1) ∧
      Bus.Shows recordSize (bytes t.files l) k payload := htraversed.answer payload rfl
  have hrecord : record = slotAt recordSize k := by
    rw [Bus.slotAt_succ] at hslot
    omega
  refine ⟨record, hinside, hnext, ?_⟩
  rw [hrecord]
  intro hbegins
  exact hshows.eq_of_fresh (hinv.fresh k hbegins)

/-- Two windows onto one file, with room for two records and for one. -/
def sampleWide : Bus := ⟨⟨"mq", ["mq"], 72⟩, 16⟩

def sampleNarrow : Bus := ⟨⟨"mq", ["mq"], 40⟩, 16⟩

/-- The files once a record has been reserved. -/
def sampleReserve (files : Files) : Files :=
  ((sampleWide.mapping.attempt (Bus.reserveIn sampleWide.stride)).perform files).2

/-- The files once a record has been filled. -/
def sampleFill (record : Nat) (payload : Bytes) (files : Files) : Files :=
  ((sampleWide.mapping.attempt (Bus.fillIn sampleWide.stride record payload)).perform files).2

/-- The files of a bus of two records, the second of which tells "old". -/
def sampleOld : Files :=
  sampleFill 40 [0x6f, 0x6c, 0x64] (sampleReserve (sampleReserve
    ((Bus.openWriter "mq" 72 16 false).perform .empty).2))

/-- The files once the bus has been emptied through the window with room for one record, and the
first record tells "new". -/
def sampleNew : Files :=
  sampleFill 8 [0x6e, 0x65, 0x77] (sampleReserve
    ((Bus.openWriter "mq" 40 16 false).perform sampleOld).2)

/-- The files once a reader has opened the bus through the window with room for two. -/
def sampleRead : Files := ((BusReader.openFile "mq" 72 16 3600000).perform sampleNew).2

theorem reached_sampleOld :
    Reached ["mq"] 16 ⟨sampleOld, [sampleWide], [(sampleWide, 8)], 72, [(40, [0x6f, 0x6c, 0x64])],
      []⟩ := by
  have hstart : Reached ["mq"] 16 { files := .empty } := .start .empty
  have hopened := hstart.step (.empty "mq" 72 sampleWide _ (by decide)
    (Attempt.eq_ok_of_perform (by decide +kernel)) rfl)
  have hfirst := hopened.step (.reserve sampleWide 8 _ (List.mem_singleton_self _)
    (Attempt.eq_ok_of_perform (by decide +kernel)))
  have hsecond := hfirst.step (.reserve sampleWide 40 _ (List.mem_singleton_self _)
    (Attempt.eq_ok_of_perform (by decide +kernel)))
  have hfilled := hsecond.step (.fill sampleWide 40 [0x6f, 0x6c, 0x64] _ List.mem_cons_self
    (by decide) (Attempt.eq_ok_of_perform (by decide +kernel)))
  simp only [List.erase_cons_head, List.map_nil] at hfilled
  exact hfilled

theorem reached_sampleRead :
    Reached ["mq"] 16 ⟨sampleRead, [sampleNarrow, sampleWide], [(sampleWide, 8)], 40,
      [(8, [0x6e, 0x65, 0x77])], [{ reader := ⟨sampleWide, 3600000, .start⟩ }]⟩ := by
  have hemptied := reached_sampleOld.step (.empty "mq" 40 sampleNarrow _ (by decide)
    (Attempt.eq_ok_of_perform (by decide +kernel)) rfl)
  have hreserved := hemptied.step (.reserve sampleWide 8 _ (by simp)
    (Attempt.eq_ok_of_perform (by decide +kernel)))
  have hfilled := hreserved.step (.fill sampleWide 8 [0x6e, 0x65, 0x77] _ List.mem_cons_self
    (by decide) (Attempt.eq_ok_of_perform (by decide +kernel)))
  have hread := hfilled.step (.openReader "mq" 72 3600000 ⟨sampleWide, 3600000, .start⟩ _
    (by decide) (Attempt.eq_ok_of_perform (by decide +kernel)) rfl)
  simp only [List.erase_cons_head, List.map_nil] at hread
  exact hread

/-- The reader is answered "new". -/
theorem filled_of_poll_sample :
    ∃ reader after,
      BusReader.poll ⟨sampleWide, 3600000, .start⟩ 0 sampleRead =
        (some [0x6e, 0x65, 0x77], reader, after) ∧
      ∃ (record : Nat) (whole : Bytes), record < 40 ∧
        (record, whole) ∈ [(8, [0x6e, 0x65, 0x77])] ∧
        [0x6e, 0x65, 0x77] = whole.take (whole.length % UInt32.size) := by
  have hpoll : BusReader.poll ⟨sampleWide, 3600000, .start⟩ 0 sampleRead =
      (some [0x6e, 0x65, 0x77], ⟨sampleWide, 3600000, ⟨40, none⟩⟩,
        (BusReader.poll ⟨sampleWide, 3600000, .start⟩ 0 sampleRead).2.2) :=
    Prod.ext (by decide +kernel) (Prod.ext (by decide +kernel) rfl)
  obtain ⟨record, -, hposition, hfilled⟩ :=
    filled_of_poll reached_sampleRead (List.mem_singleton_self _) 0 hpoll
  have hbegins : record < 40 := by
    have hrecord : 40 = record + 32 := hposition
    omega
  obtain ⟨whole, hmem, htake⟩ := hfilled hbegins
  exact ⟨_, _, hpoll, record, whole, hbegins, hmem, htake⟩

/-- When the second record has been reserved once more and its writer has died, the reader, which
came after the bus was emptied, is answered "old" next, from before that. -/
theorem answered_after_emptied :
    ∃ (t : Turnover) (s : Session), Reached ["mq"] 16 t ∧ s ∈ t.sessions ∧ s.current = true ∧
      s.returned = [[0x6e, 0x65, 0x77]] ∧
      (s.reader.poll 0 t.files).1 = some [0x6f, 0x6c, 0x64] ∧
      (s.reader.poll 0 t.files).2.1.cursor.position = 40 + strideOf 16 ∧
      ∀ entry ∈ t.filled, entry ≠ (40, [0x6f, 0x6c, 0x64]) := by
  have hreserved := reached_sampleRead.step (.reserve sampleWide 40 _ (by simp)
    (Attempt.eq_ok_of_perform (by decide +kernel)))
  have hpolled := hreserved.step (.poll 0 { reader := ⟨sampleWide, 3600000, .start⟩ } 0 rfl)
  refine ⟨_, _, hpolled, List.mem_cons_self, rfl, ?_, ?_, ?_, ?_⟩ <;> decide +kernel

end Turnover

end Columnlet
