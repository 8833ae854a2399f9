import Columnlet.Command.Run
import Columnlet.Proofs.Bus.Pending
import Columnlet.Proofs.Reader.Reports

/-! # Reports across invocations

What a reader of the miss bus can drain stays there to be drained whatever is invoked on the command
line; only a key that is told not to be cached may be added behind it. -/

namespace Columnlet

open Attempt (Moves)

/-! ## Reports on a bus -/

namespace BusConfig

/-- The bus of some settings has given reports, of which a reader that starts at the first of them
and gives up on none drains as many as it asks for. A bus that cannot be opened has none. -/
def Drains (bus : BusConfig) (files : Files) (records : List Bytes) : Prop :=
  ∀ timeout now max, 0 < timeout →
    match BusReader.openFile bus.path bus.fileSize bus.recordSize timeout files with
    | .ok reader opened => (reader.drain now max opened).1 = records.take max
    | .error _ _ => records = []

/-- Given reports are pending on the bus, if it can be opened. -/
def Pends (bus : BusConfig) (files : Files) (records : List Bytes) : Prop :=
  match Bus.openFile bus.path bus.fileSize bus.recordSize files with
  | .ok b _ => Bus.Pending b.recordSize (files.view b.mapping) 0 records
  | .error _ _ => records = []

variable {bus : BusConfig} {files after : Files} {records : List Bytes}

theorem Pends.drains (h : bus.Pends files records) : bus.Drains files records := by
  intro timeout now max htimeout
  unfold Pends at h
  cases hopen : Bus.openFile bus.path bus.fileSize bus.recordSize files with
  | error e failed =>
      rw [hopen] at h
      rw [BusReader.openFile, Attempt.bind_of_error hopen]
      exact h
  | ok b opened =>
      rw [hopen] at h
      rw [BusReader.openFile, Attempt.bind_of_ok hopen]
      have hquiet := (Bus.moves_openFile _ _ _).of_ok hopen
      have hview : opened.view b.mapping = files.view b.mapping := hquiet.bytes.view_eq b.mapping
      obtain ⟨l, rfl, -⟩ := Bus.openFile_eq_ok hopen
      have hdrain := (Bus.drainIn_of_pending h htimeout now max (c := .start)
        (Bus.slotAt_zero _).symm rfl).1
      rw [← hview] at hdrain
      exact hdrain

theorem exists_pends (bus : BusConfig) (files : Files) : ∃ records, bus.Pends files records := by
  unfold Pends
  cases hopen : Bus.openFile bus.path bus.fileSize bus.recordSize files with
  | error e failed => exact ⟨[], rfl⟩
  | ok b opened =>
      exact Bus.exists_pending _ _ 0

theorem pends_iff_of_ok {b : Bus} {opened : Files}
    (hopen : Bus.openFile bus.path bus.fileSize bus.recordSize files = .ok b opened) :
    bus.Pends files records ↔ Bus.Pending b.recordSize (files.view b.mapping) 0 records := by
  rw [Pends, hopen]

theorem pends_iff_of_error {e : Error} {failed : Files}
    (hopen : Bus.openFile bus.path bus.fileSize bus.recordSize files = .error e failed) :
    bus.Pends files records ↔ records = [] := by
  rw [Pends, hopen]

theorem openFile_of_directories {b : Bus} {opened : Files}
    (hdirectories : after.directories = files.directories)
    (hopen : Bus.openFile bus.path bus.fileSize bus.recordSize files = .ok b opened) :
    ∃ again, Bus.openFile bus.path bus.fileSize bus.recordSize after = .ok b again := by
  obtain ⟨again, hagain, -⟩ := Bus.openFile_again hopen hdirectories
  exact ⟨again, hagain⟩

/-- What is pending on a bus stays so, and behind it come at most reports of given keys, in their
order. -/
structure Extends (bus : BusConfig) (keys : List Key) (files after : Files) : Prop where
  directories : after.directories = files.directories
  reports : ∀ records, bus.Pends files records →
    ∃ more, bus.Pends after (records ++ more) ∧ more.Sublist (keys.map Key.toBytes)

variable {keys : List Key}

theorem Extends.trans {mid : Files} {later : List Key} (h : bus.Extends keys files mid)
    (h' : bus.Extends later mid after) : bus.Extends (keys ++ later) files after := by
  refine ⟨h'.directories.trans h.directories, ?_⟩
  intro records hpends
  obtain ⟨more, hmid, hmore⟩ := h.reports records hpends
  obtain ⟨last, hafter, hlast⟩ := h'.reports _ hmid
  refine ⟨more ++ last, by rwa [← List.append_assoc], ?_⟩
  rw [List.map_append]
  exact hmore.append hlast

theorem Extends.of_nil (h : bus.Extends [] files after) (keys : List Key) :
    bus.Extends keys files after := by
  refine ⟨h.directories, ?_⟩
  intro records hpends
  obtain ⟨more, hmid, hmore⟩ := h.reports records hpends
  exact ⟨more, hmid, hmore.trans (List.nil_sublist _)⟩

/-! ## Opened buses -/

/-- A bus is the one that a reader with the settings opens, and its limit is between records. -/
structure Ready (bus : BusConfig) (files : Files) (b : Bus) : Prop where
  opens : ∃ opened, Bus.openFile bus.path bus.fileSize bus.recordSize files = .ok b opened
  limit : ∃ count, (Bus.limitIn (files.view b.mapping)).toNat = Bus.slotAt b.recordSize count

variable {b : Bus}

theorem Ready.of_view (h : bus.Ready files b) (hdirectories : after.directories = files.directories)
    (hview : after.view b.mapping = files.view b.mapping) : bus.Ready after b := by
  obtain ⟨opened, hopen⟩ := h.opens
  refine ⟨openFile_of_directories hdirectories hopen, ?_⟩
  rw [hview]
  exact h.limit

theorem ready_of_openWriter
    (h : Bus.openWriter bus.path bus.fileSize bus.recordSize true files = .ok b after) :
    bus.Ready after b := by
  obtain ⟨found, hfile, hdirectories⟩ := Bus.openFile_of_openWriter h
  refine ⟨openFile_of_directories hdirectories hfile, ?_⟩
  rcases Bus.openWriter_cases bus.path bus.fileSize bus.recordSize true files with
    ⟨e, failed, hopen, -⟩ | ⟨l, opened, r, hopen, -, hprepare⟩
  · cases hopen.symm.trans h
  · cases hopen.symm.trans h
    rw [Files.view_commit_self]
    obtain ⟨count, hreserved⟩ := Bus.reserved_of_prepareIn (Bus.grid_of_openWriter hopen) hprepare
    exact ⟨count, hreserved.limit⟩

/-- The bus of some settings is in a file of its own. -/
def Apart (bus : BusConfig) (c : Config) (files : Files) : Prop :=
  ∀ l, files.locate bus.path = .ok l →
    files.locate c.index.path ≠ .ok l ∧ files.locate c.content.path ≠ .ok l

theorem Apart.of_directories {c : Config} (h : bus.Apart c files)
    (hdirectories : after.directories = files.directories) : bus.Apart c after := by
  intro l hl
  obtain ⟨hindex, hcontent⟩ := h l (Files.locate_of_directories hdirectories.symm hl)
  exact ⟨fun hother => hindex (Files.locate_of_directories hdirectories.symm hother),
    fun hother => hcontent (Files.locate_of_directories hdirectories.symm hother)⟩

/-! ## Changes of the files -/

/-- What becomes of the reports on a bus is what becomes of those in its window. -/
theorem extends_of_window (hdirectories : after.directories = files.directories)
    (hwindow : ∀ b opened records,
      Bus.openFile bus.path bus.fileSize bus.recordSize files = .ok b opened →
      Bus.Grid b.mapping.size b.recordSize →
      Bus.Pending b.recordSize (files.view b.mapping) 0 records →
      ∃ more, Bus.Pending b.recordSize (after.view b.mapping) 0 (records ++ more) ∧
        more.Sublist (keys.map Key.toBytes)) :
    bus.Extends keys files after := by
  refine ⟨hdirectories, ?_⟩
  intro records hpends
  cases hopen : Bus.openFile bus.path bus.fileSize bus.recordSize files with
  | ok b opened =>
      obtain ⟨again, hagain⟩ := openFile_of_directories hdirectories hopen
      rw [pends_iff_of_ok hopen] at hpends
      simp only [pends_iff_of_ok hagain]
      obtain ⟨l, rfl, hg⟩ := Bus.openFile_eq_ok hopen
      exact hwindow _ opened records hopen hg hpends
  | error e failed =>
      rw [pends_iff_of_error hopen] at hpends
      subst hpends
      refine ⟨[], ?_, List.nil_sublist _⟩
      cases hagain : Bus.openFile bus.path bus.fileSize bus.recordSize after with
      | ok b again =>
          obtain ⟨opened, hok⟩ := openFile_of_directories hdirectories.symm hagain
          cases hopen.symm.trans hok
      | error e' failed' => exact (pends_iff_of_error hagain).mpr rfl

theorem extends_of_view (hdirectories : after.directories = files.directories)
    (hview : ∀ b opened, Bus.openFile bus.path bus.fileSize bus.recordSize files = .ok b opened →
      after.view b.mapping = files.view b.mapping) :
    bus.Extends [] files after := by
  refine extends_of_window hdirectories ?_
  intro b opened records hopen _ hpending
  rw [hview b opened hopen]
  exact ⟨[], by rwa [List.append_nil], List.nil_sublist _⟩

theorem extends_of_quiet (h : files.Quiet after) : bus.Extends [] files after :=
  extends_of_view h.directories fun b _ _ => h.bytes.view_eq b.mapping

theorem extends_refl (files : Files) : bus.Extends [] files files :=
  extends_of_quiet (.refl files)

theorem extends_of_kept {opened : Files}
    (hopen : Bus.openFile bus.path bus.fileSize bus.recordSize files = .ok b opened)
    (hkept : files.Kept b.mapping.location after) : bus.Extends [] files after := by
  refine extends_of_view hkept.directories ?_
  intro b' opened' hopen'
  cases hopen.symm.trans hopen'
  exact hkept.region_eq b.mapping.size

/-- Opening a bus that keeps its reports, whether it succeeds or not, leaves what is pending. -/
theorem moves_openWriter :
    (Bus.openWriter bus.path bus.fileSize bus.recordSize true).Moves (bus.Extends []) := by
  intro files
  rw [Attempt.perform, EStateM.run]
  rcases Bus.openWriter_cases bus.path bus.fileSize bus.recordSize true files with
    ⟨e, failed, hopen, hquiet⟩ | ⟨l, opened, r, hopen, hquiet, hprepare⟩
  · rw [hopen]
    exact extends_of_quiet hquiet
  · rw [hopen]
    obtain ⟨found, hfile, hdirectories⟩ := Bus.openFile_of_openWriter hopen
    refine extends_of_window hdirectories ?_
    intro b again records hagain hg hpending
    cases hfile.symm.trans hagain
    have hview : opened.view ⟨bus.path, l, bus.fileSize.toNat⟩ =
        files.view ⟨bus.path, l, bus.fileSize.toNat⟩ := hquiet.bytes.view_eq _
    rw [Files.view_commit_self]
    rw [← hview] at hpending
    exact ⟨[], by rw [List.append_nil]; exact hpending.prepare hg hprepare, List.nil_sublist _⟩

/-- A report to a bus that is ready for it adds at most its key. -/
theorem Ready.send (h : bus.Ready files b) (key : Key) :
    bus.Extends [key] files ((b.send key.toBytes).perform files).2 := by
  obtain ⟨opened, hopen⟩ := h.opens
  refine extends_of_window (Bus.directories_send b _ files) ?_
  intro b' opened' records hopen' hg hpending
  cases hopen.symm.trans hopen'
  obtain ⟨count, hlimit⟩ := h.limit
  have hshort : key.toBytes.length < UInt32.size := by
    rw [key.length_toBytes]
    decide
  obtain ⟨more, hmore, hkeys⟩ := hpending.send hg hlimit hshort
  refine ⟨more, ?_, hkeys⟩
  rw [Bus.send, Mapping.perform_attempt, Files.view_commit_self]
  exact hmore

/-- A read through a bus that is ready for reports adds at most its key, and nothing if it is not a
miss. -/
theorem Ready.read {reader : Reader Unit} (h : bus.Ready files b)
    (hchannel : reader.channel = .bus b)
    (hindex : b.mapping.location ≠ reader.index.mapping.location)
    (hcontent : b.mapping.location ≠ reader.content.mapping.location) (key : Key)
    (counters : Counters) :
    bus.Extends (if (reader.read key ⟨files, counters, ()⟩).1 = .miss then [key] else []) files
      (reader.read key ⟨files, counters, ()⟩).2.files := by
  rcases reader.read_reports key ⟨files, counters, ()⟩ hindex hcontent with
    ⟨hout, hfiles, -⟩ | ⟨hout, inside, hinside, -, hlast, -⟩
  · obtain ⟨opened, hopen⟩ := h.opens
    rw [if_neg hout]
    exact extends_of_kept hopen hfiles
  · obtain ⟨opened, hopen⟩ := h.opens
    have hready := h.of_view hinside.directories (hinside.region_eq b.mapping.size)
    obtain ⟨again, hagain⟩ := hready.opens
    have hsend := hready.send key
    obtain ⟨last, hreopen⟩ := openFile_of_directories hsend.directories hagain
    have hreport : (reader.reportMiss key inside).files =
        ((b.send key.toBytes).perform inside.files).2 := by
      rw [MissLog.reportMiss_bus hchannel, Attempt.perform, EStateM.run]
      cases b.send key.toBytes inside.files <;> rfl
    rw [hreport] at hlast
    rw [if_pos hout]
    exact ((extends_of_kept hopen hinside).trans hsend).trans
      (extends_of_kept hreopen hlast)

end BusConfig

/-- A reader that has just been opened, and waits at all, rolls back no record. -/
theorem BusReader.quiet_drain (reader : BusReader) (htimeout : 0 < reader.timeout)
    (hcursor : reader.cursor = .start) (now max : Nat) (files : Files) :
    files.Quiet (reader.drain now max files).2.2 := by
  obtain ⟨records, hpending⟩ := Bus.exists_pending reader.bus.recordSize
    (files.view reader.bus.mapping) 0
  have hdrain := (Bus.drainIn_of_pending hpending htimeout now max (c := reader.cursor)
    (by rw [hcursor, Bus.slotAt_zero]; rfl) (by rw [hcursor]; rfl)).2
  change files.Quiet (files.commit reader.bus.mapping (Bus.drainIn
    (Bus.strideOf reader.bus.recordSize) _ _ _ _ _).2.2)
  rw [hdrain]
  exact files.quiet_commit_view reader.bus.mapping

namespace Command

variable {c : Config} {bus : BusConfig} {files after : Files}

/-! ## Actions -/

theorem keepReports_eq (hbus : c.missChannel = some bus) :
    keepReports c = { c with missChannel := some { bus with append := true } } := by
  obtain ⟨index, content, channel, format⟩ := c
  cases hbus
  rfl

theorem openWith_eq_ok {reader : Reader Unit} (hbus : c.missChannel = some bus)
    (h : Reader.openWith (keepReports c) none files = .ok reader after) :
    ∃ b written opened, reader.channel = .bus b ∧
      Bus.openWriter bus.path bus.fileSize bus.recordSize true files = .ok b written ∧
      Files.openMapping c.content.path c.content.size.toNat written =
        .ok reader.content.mapping opened ∧
      Files.openMapping c.index.path c.index.size.toNat opened =
        .ok reader.index.mapping after := by
  rw [keepReports_eq hbus, Reader.openWith] at h
  obtain ⟨_, _, hvalid, hopening⟩ := Attempt.bind_eq_ok_iff.mp h
  obtain ⟨-, rfl⟩ := Attempt.ofExcept_eq_ok_iff.mp hvalid
  obtain ⟨channel, written, hchannel, hregions⟩ := Attempt.bind_eq_ok_iff.mp hopening
  obtain ⟨b, _, hwriter, hreturn⟩ := Attempt.bind_eq_ok_iff.mp hchannel
  cases hreturn
  obtain ⟨content, opened, hcontent, hindexing⟩ := Attempt.bind_eq_ok_iff.mp hregions
  obtain ⟨mapping, _, hmapping, hchecking⟩ := Attempt.bind_eq_ok_iff.mp hindexing
  obtain ⟨index, _, hfits, hbuilding⟩ := Attempt.bind_eq_ok_iff.mp hchecking
  obtain ⟨hfit, rfl⟩ := Attempt.ofExcept_eq_ok_iff.mp hfits
  obtain ⟨hmade, rfl⟩ := Attempt.ofExcept_eq_ok_iff.mp hbuilding
  obtain ⟨_, -, hindex⟩ := except_bind_eq_ok_iff.mp hfit
  cases hindex
  obtain ⟨_, -, hreader⟩ := except_bind_eq_ok_iff.mp hmade
  cases hreader
  exact ⟨b, written, opened, rfl, hwriter, hcontent, hmapping⟩

/-- A reader that has been opened reports to a bus of its own that is ready for it. -/
theorem ready_of_openWith {reader : Reader Unit} (hbus : c.missChannel = some bus)
    (hapart : bus.Apart c files)
    (h : Reader.openWith (keepReports c) none files = .ok reader after) :
    ∃ b, reader.channel = .bus b ∧ bus.Ready after b ∧
      b.mapping.location ≠ reader.index.mapping.location ∧
      b.mapping.location ≠ reader.content.mapping.location := by
  obtain ⟨b, written, opened, hchannel, hwriter, hcontent, hindex⟩ := openWith_eq_ok hbus h
  obtain ⟨found, hfile, hdirectories⟩ := Bus.openFile_of_openWriter hwriter
  have hfirst := (Files.moves_openMapping _ _).of_ok hcontent
  have hquiet := hfirst.trans _ _ _ ((Files.moves_openMapping _ _).of_ok hindex)
  have hlocated : files.locate bus.path = .ok b.mapping.location := by
    obtain ⟨-, m, hm, rfl⟩ := Bus.openFile_eq_ok_iff.mp hfile
    exact Files.locate_of_openMapping hm
  obtain ⟨hindexApart, hcontentApart⟩ := hapart _ hlocated
  refine ⟨b, hchannel, ?_, ?_, ?_⟩
  · exact (BusConfig.ready_of_openWriter hwriter).of_view hquiet.directories
      (hquiet.bytes.view_eq b.mapping)
  · intro hsame
    have hl := Files.locate_of_openMapping hindex
    rw [← hsame] at hl
    exact hindexApart (Files.locate_of_directories
      (hfirst.directories.trans hdirectories).symm hl)
  · intro hsame
    have hl := Files.locate_of_openMapping hcontent
    rw [← hsame] at hl
    exact hcontentApart (Files.locate_of_directories hdirectories.symm hl)

theorem runGet_of_openWith {reader : Reader Unit} (key : Key) (hex : Bool)
    (h : Reader.openWith (keepReports c) none files = .ok reader after) :
    runGet c key hex files =
      .ok (printOutcome key hex (reader.read key ⟨after, {}, ()⟩).2.counters
        (reader.read key ⟨after, {}, ()⟩).1) (reader.read key ⟨after, {}, ()⟩).2.files := by
  rw [runGet, Attempt.bind_of_ok h]
  rfl

theorem moves_runInspect (c : Config) : (runInspect c).Moves Files.Quiet := by
  refine (Files.moves_openMapping _ _).bind Files.Quiet.trans fun m => ?_
  refine (Moves.ofExcept Files.Quiet.refl _).bind Files.Quiet.trans fun coordinator => ?_
  refine (Moves.get Files.Quiet.refl).bind Files.Quiet.trans fun files => ?_
  exact Moves.pure Files.Quiet.refl _

/-- The keys that an action says not to be cached, by what it prints: at most that of its
columnlet. -/
def Action.missed : Action → String → List Key
  | .get key _, stderr =>
    if (key.text ++ ": not cached\n").toList.isPrefixOf stderr.toList then [key] else []
  | _, _ => []

theorem Action.missed_get (key : Key) (hex : Bool) (stderr : String) :
    (Action.get key hex).missed stderr =
      if (key.text ++ ": not cached\n").toList <+: stderr.toList then [key] else [] := by
  simp only [missed, List.isPrefixOf_iff_prefix]

/-- What is printed tells a miss from all other answers. -/
theorem Action.missed_printOutcome (key : Key) (hex : Bool) (counters : Counters)
    (outcome : Outcome) :
    (Action.get key hex).missed (printOutcome key hex counters outcome).stderr =
      if outcome = .miss then [key] else [] := by
  rw [missed_get]
  cases outcome with
  | miss => rw [printOutcome, if_pos (List.prefix_refl _), if_pos rfl]
  | hit payload =>
      have hnone : ¬ (key.text ++ ": not cached\n").toList <+: "".toList := by
        intro hbegins
        have hnil := List.prefix_nil.mp hbegins
        rw [String.toList_append, List.append_eq_nil_iff] at hnil
        exact absurd hnil.2 (by decide)
      rw [printOutcome, if_neg hnone, if_neg nofun]
  | unavailable reason =>
      have hnone : ¬ (key.text ++ ": not cached\n").toList <+:
          (key.text ++ ": unavailable (" ++ reason.message ++ ")\n").toList := by
        intro hbegins
        simp only [String.toList_append, List.append_assoc,
          List.prefix_append_right_inj] at hbegins
        -- Both lines begin with the key; they differ in the third character behind it.
        have hthird := congrArg (List.take 3) (List.prefix_iff_eq_take.mp hbegins)
        rw [List.take_take, List.take_append_of_le_length (by decide)] at hthird
        exact absurd hthird (by decide)
      rw [printOutcome, if_neg hnone, if_neg nofun]

/-- Text behind takes no key away. -/
theorem Action.missed_append (action : Action) (stderr text : String) :
    action.missed stderr = [] ∨ action.missed (stderr ++ text) = action.missed stderr := by
  cases action with
  | get key hex =>
      have hbehind : (stderr ++ text).toList = stderr.toList ++ text.toList := String.toList_append
      rw [missed_get, missed_get, hbehind]
      by_cases hbegins : (key.text ++ ": not cached\n").toList <+: stderr.toList
      · rw [if_pos hbegins, if_pos (hbegins.trans (List.prefix_append _ _))]
        exact .inr rfl
      · rw [if_neg hbegins]
        exact .inl rfl
  | inspect => exact .inl rfl
  | misses limit => exact .inl rfl

theorem extends_of_append {action : Action} {stderr : String}
    (h : bus.Extends (action.missed stderr) files after) (text : String) :
    bus.Extends (action.missed (stderr ++ text)) files after := by
  rcases action.missed_append stderr text with hnone | hsame
  · rw [hnone] at h
    exact h.of_nil _
  · rw [hsame]
    exact h

section

variable (hbus : c.missChannel = some bus)

include hbus

/-- Opening a reader that keeps the reports, whether it succeeds or not, leaves what is pending. -/
theorem moves_openWith :
    (Reader.openWith (keepReports c) (none : Option (MissChannel Unit))).Moves
      (bus.Extends []) := by
  have hrefl (files : Files) : bus.Extends [] files files := BusConfig.extends_refl files
  have htrans (s t u : Files) (h : bus.Extends [] s t) (h' : bus.Extends [] t u) :
      bus.Extends [] s u := h.trans h'
  have hmapping (path : String) (size : Nat) :
      (Files.openMapping path size).Moves (bus.Extends []) := fun files =>
    BusConfig.extends_of_quiet (Files.moves_openMapping path size files)
  rw [keepReports_eq hbus]
  refine (Moves.ofExcept hrefl _).bind htrans fun _ => ?_
  refine Moves.bind htrans ?_ fun channel => ?_
  · exact (BusConfig.moves_openWriter).bind htrans fun b => Moves.pure hrefl _
  refine (hmapping _ _).bind htrans fun content => ?_
  refine (hmapping _ _).bind htrans fun index => ?_
  refine (Moves.ofExcept hrefl _).bind htrans fun index => ?_
  exact Moves.ofExcept hrefl _

/-- Getting a columnlet adds at most its key to the reports, and that only if it prints that the
columnlet is not cached. -/
theorem extends_of_runGet (hapart : bus.Apart c files) (key : Key) (hex : Bool) :
    match runGet c key hex files with
    | .ok printed after => bus.Extends ((Action.get key hex).missed printed.stderr) files after
    | .error _ after => bus.Extends [] files after := by
  have hopening := moves_openWith hbus
  cases hopen : Reader.openWith (keepReports c) (none : Option (MissChannel Unit)) files with
  | error e failed =>
      rw [runGet, Attempt.bind_of_error hopen]
      exact hopening.of_error hopen
  | ok reader opened =>
      obtain ⟨b, hchannel, hready, hindex, hcontent⟩ := ready_of_openWith hbus hapart hopen
      have hread := hready.read hchannel hindex hcontent key {}
      have hboth := (hopening.of_ok hopen).trans hread
      rw [runGet_of_openWith key hex hopen]
      simp only [Action.missed_printOutcome]
      exact hboth

/-- Printing the reports leaves them. -/
theorem moves_runMisses (limit : Nat) : (runMisses c limit).Moves Files.Quiet := by
  rw [runMisses, hbus]
  refine Moves.bind_of_ok Files.Quiet.trans ?_ fun files reader opened hopen => ?_
  · exact Bus.moves_openReader _ _ _ _
  · obtain ⟨b, _, hb, hreader⟩ := Attempt.bind_eq_ok_iff.mp hopen
    cases hreader
    have hwaits : 0 < Bus.defaultTimeout := by decide
    have hquiet := BusReader.quiet_drain ⟨b, Bus.defaultTimeout, .start⟩ hwaits rfl 0 limit opened
    exact hquiet

/-- An action adds at most the key that it says not to be cached. -/
theorem extends_of_runAction (hapart : bus.Apart c files) (action : Action) :
    match runAction c action files with
    | .ok printed after => bus.Extends (action.missed printed.stderr) files after
    | .error _ after => bus.Extends [] files after := by
  cases action with
  | get key hex => exact extends_of_runGet hbus hapart key hex
  | inspect =>
      have hmoves := moves_runInspect c
      rw [runAction]
      cases hrun : runInspect c files with
      | error e after => exact BusConfig.extends_of_quiet (hmoves.of_error hrun)
      | ok printed after => exact BusConfig.extends_of_quiet (hmoves.of_ok hrun)
  | misses limit =>
      have hmoves := moves_runMisses hbus limit
      rw [runAction]
      cases hrun : runMisses c limit files with
      | error e after => exact BusConfig.extends_of_quiet (hmoves.of_error hrun)
      | ok printed after => exact BusConfig.extends_of_quiet (hmoves.of_ok hrun)

/-! ## Runs -/

/-- The keys that a run says not to be cached. -/
def missed : Request → Result → List Key
  | .run i, .finished 0 _ stderr => i.action.missed stderr
  | _, _ => []

/-- Invocations one after another that find the same settings, or none; what they leave of the
files, and the keys that they say not to be cached. -/
inductive Ran (c : Config) : Files → List Key → Files → Prop where
  | none (files : Files) : Ran c files [] files
  | step {files after : Files} {keys : List Key} (args : List String) (env : Environment)
      (found : ∀ i config, parse args env = .run i →
        Config.ofFile files i.configPath = .ok config → config = c)
      (rest : Ran c (run args env files).2 keys after) :
      Ran c files (missed (parse args env) (run args env files).1 ++ keys) after

/-- An invocation that finds the settings, or none, adds at most the key that it says not to be
cached. -/
theorem extends_of_runInvocation (hapart : bus.Apart c files) (i : Invocation)
    (hfound : ∀ config, Config.ofFile files i.configPath = .ok config → config = c) :
    match runInvocation i files with
    | .ok printed after => bus.Extends (i.action.missed printed.stderr) files after
    | .error _ after => bus.Extends [] files after := by
  have hget : (get : Attempt Files Files) files = .ok files files := rfl
  have hrefl : bus.Extends [] files files := BusConfig.extends_refl files
  rw [runInvocation, Attempt.bind_of_ok hget]
  cases hconfig : Config.ofFile files i.configPath with
  | error e => exact hrefl
  | ok config =>
      cases hfound config hconfig
      cases hregistry : (if i.metrics then announce else .ok {}) with
      | error e => exact hrefl
      | ok registry =>
          have haction := extends_of_runAction hbus hapart i.action
          have hread : (Attempt.ofExcept (.ok c) : Attempt Files Config) files = .ok c files := rfl
          have hannounced : (Attempt.ofExcept (.ok registry) : Attempt Files Registry) files =
            .ok registry files := rfl
          rw [Attempt.bind_of_ok hread, Attempt.bind_of_ok hannounced]
          cases hrun : runAction c i.action files with
          | error e after =>
              rw [hrun] at haction
              rw [Attempt.bind_of_error hrun]
              exact haction
          | ok printed after =>
              rw [hrun] at haction
              rw [Attempt.bind_of_ok hrun]
              exact extends_of_append haction _

/-- A run that finds the settings, or none, adds at most the key that it says not to be cached. -/
theorem extends_of_run (hapart : bus.Apart c files) (args : List String) (env : Environment)
    (hfound : ∀ i config, parse args env = .run i →
      Config.ofFile files i.configPath = .ok config → config = c) :
    bus.Extends (missed (parse args env) (run args env files).1) files
      (run args env files).2 := by
  have hrefl : bus.Extends [] files files := BusConfig.extends_refl files
  rw [run]
  cases hparse : parse args env with
  | unusable => exact hrefl
  | version => exact hrefl
  | help => exact hrefl
  | run i =>
      have hinvocation := extends_of_runInvocation hbus hapart i fun config =>
        hfound i config hparse
      simp only
      cases hrun : runInvocation i files with
      | error e after =>
          rw [hrun] at hinvocation
          cases e <;> exact hinvocation
      | ok printed after =>
          rw [hrun] at hinvocation
          exact hinvocation

theorem extends_of_ran {keys : List Key} (hapart : bus.Apart c files) (h : Ran c files keys after) :
    bus.Extends keys files after := by
  induction h with
  | none files => exact BusConfig.extends_refl files
  | step args env found rest ih =>
      -- The bus stays apart because no command makes or removes a directory.
      have hstep := extends_of_run hbus hapart args env found
      exact hstep.trans (ih (hapart.of_directories hstep.directories))

end

/-- Whatever is invoked, the reports that can be drained from a miss bus in a file of its own stay
there in front, and behind them come at most the keys that were said not to be cached, once each
time. -/
theorem drains_of_ran {keys : List Key} (hbus : c.missChannel = some bus)
    (hapart : bus.Apart c files) (h : Ran c files keys after) :
    ∃ records more, bus.Drains files records ∧ bus.Drains after (records ++ more) ∧
      more.Sublist (keys.map Key.toBytes) := by
  obtain ⟨records, hbefore⟩ := bus.exists_pends files
  obtain ⟨more, hafter, hmore⟩ := (extends_of_ran hbus hapart h).reports records hbefore
  exact ⟨records, more, hbefore.drains, hafter.drains, hmore⟩

/-- Settings that would have a bus emptied when it is opened for writing. -/
def sampleConfig : Config :=
  ⟨⟨"index", 64⟩, ⟨"content", 64⟩, some ⟨"bus", 72, 16, false⟩, .current⟩

/-- The file of these settings. -/
def sampleText : Bytes :=
  Bytes.ofText ("index: \x7bpath: index, size: 64\x7d\n" ++
    "content: \x7bpath: content, size: 64\x7d\n" ++
    "miss_channel: \x7bpath: bus, file_size: 72\x7d\n")

/-- The files with a report on the bus. -/
def sampleFiles : Files :=
  (Attempt.perform (do
    let bus ← Bus.openWriter "bus" 72 16 false
    bus.send (Key.toBytes ⟨7, 8, 9⟩)) (Files.empty.put ["colcache.yaml"]
      (.ofBytes sampleText sampleText.length))).2

/-- Fetch a columnlet. -/
def sampleArguments : List String :=
  ["get", "--file-id", "1", "--row-group", "2", "--column", "3"]

theorem drains_of_ran_sample :
    ∃ bus after, sampleConfig.missChannel = some bus ∧ bus.append = false ∧
      Ran sampleConfig sampleFiles [⟨1, 2, 3⟩] after ∧
      ∃ records more, bus.Drains sampleFiles records ∧ bus.Drains after (records ++ more) ∧
        more.Sublist [Key.toBytes ⟨1, 2, 3⟩] := by
  have hparse : parse sampleArguments {} = .run ⟨"colcache.yaml", false, .get ⟨1, 2, 3⟩ false⟩ := by
    decide +kernel
  have hconfig : Config.ofFile sampleFiles "colcache.yaml" = .ok sampleConfig :=
    except_eq_ok_of_toOption (by decide +kernel)
  have hmissed : missed (parse sampleArguments {}) (run sampleArguments {} sampleFiles).1 =
      [⟨1, 2, 3⟩] := by decide +kernel
  have hfound : ∀ i config, parse sampleArguments {} = .run i →
      Config.ofFile sampleFiles i.configPath = .ok config → config = sampleConfig := by
    intro i config hrequest hfile
    rw [hparse] at hrequest
    cases hrequest
    exact (Except.ok.inj (hconfig.symm.trans hfile)).symm
  have hran := Ran.step sampleArguments {} hfound (.none _)
  rw [hmissed, List.append_nil] at hran
  have hbus : sampleFiles.locate "bus" = .ok ["bus"] :=
    except_eq_ok_of_toOption (by decide +kernel)
  have hindex : sampleFiles.locate "index" = .ok ["index"] :=
    except_eq_ok_of_toOption (by decide +kernel)
  have hcontent : sampleFiles.locate "content" = .ok ["content"] :=
    except_eq_ok_of_toOption (by decide +kernel)
  have hapart : BusConfig.Apart ⟨"bus", 72, 16, false⟩ sampleConfig sampleFiles := by
    intro l hl
    cases hbus.symm.trans hl
    constructor
    · intro hother
      have hsame := Except.ok.inj (hindex.symm.trans hother)
      exact absurd hsame (by decide)
    · intro hother
      have hsame := Except.ok.inj (hcontent.symm.trans hother)
      exact absurd hsame (by decide)
  exact ⟨_, _, rfl, rfl, hran, drains_of_ran rfl hapart hran⟩

end Command

end Columnlet
