import BridgeVm.Share.Holds

/-!
# Renames of case plan nothing (`share_win_names.rs`, `share_win_alias.rs`)

A synced file that one scanned or listed name spells, in whatever case, keeps its one record, and neither a scan nor a
listing plans anything for a name of its key (`scan_quiet`, `listing_quiet`), in runs of both (`quiet_run`).
-/

namespace BridgeVm.Share

open Lib ShareSync

/-- A record that has what each side has. -/
structure SyncedRecord (record : FileRecord) (size mtimeMs : Nat) (mtime : Mtime) : Prop where
  size : record.size = size
  host : record.hostMtimeMs = some mtimeMs
  guest : record.guestMtime = some mtime
  written : record.hostWriteFailed = false
  confirmed : record.putUnconfirmed = false

/-- A file with a synced record, alone with its key. -/
structure Synced (s : ShareSync) (name : RelPath) (size mtimeMs : Nat) (mtime : Mtime) : Prop where
  record : ∃ record, s.records.get name = some record ∧ SyncedRecord record size mtimeMs mtime
  only : ∀ other, (s.records.get other).isSome → windowsKey other.chars = windowsKey name.chars → other = name

namespace Synced

variable {s : ShareSync} {name : RelPath} {size mtimeMs : Nat} {mtime : Mtime}

theorem onlyWithKey (h : Synced s name size mtimeMs mtime) : OnlyWithKey (s.records.entries.map Prod.fst) name := by
  obtain ⟨record, hrecord, -⟩ := h.record
  refine ⟨List.mem_map.2 ⟨(name, record), AssocMap.mem_iff_get.2 hrecord, rfl⟩, fun other hother hsame => ?_⟩
  obtain ⟨entry, hentry, rfl⟩ := List.mem_map.1 hother
  refine h.only _ ?_ hsame
  rw [AssocMap.mem_iff_get.1 hentry]
  rfl

theorem free (h : Synced s name size mtimeMs mtime) {other : RelPath}
    (hkey : windowsKey other.chars = windowsKey name.chars) (hne : ¬name = other) : s.records.get other = none := by
  rw [← Option.not_isSome_iff_eq_none]
  exact fun hsome => hne (h.only other hsome hkey).symm

theorem written (h : Synced s name size mtimeMs mtime) :
    (s.records.get name).any (fun record => !record.hostWriteFailed) = true := by
  obtain ⟨record, hrecord, hsynced⟩ := h.record
  rw [hrecord, Option.any_some, hsynced.written]
  rfl

end Synced

/-- An action on a name of a key. -/
def SyncAction.Touches (key : List Char) : SyncAction → Prop
  | .get name => windowsKey name.chars = key
  | .deleteGuest name => windowsKey name.chars = key
  | .deleteHost name => windowsKey name.chars = key
  | .skip _ _ => False

/-- A scan spells a key one way, with the size and time of the synced file. -/
def ScansAs (key : List Char) (size mtimeMs : Nat) (files : List HostFile) : Prop :=
  ∃ name : RelPath, name.chars ≠ [] ∧ windowsKey name.chars = key ∧
  (⟨name, size, mtimeMs⟩ : HostFile) ∈ files ∧
    ∀ file ∈ files, windowsKey file.name.chars = key → file = ⟨name, size, mtimeMs⟩

/-- A listing spells a key one way, with the size and time of the synced file. -/
def ListsAs (key : List Char) (size : Nat) (mtime : Mtime) (entries : List LsEntry) : Prop :=
  ∃ name : RelPath, name.chars ≠ [] ∧ windowsKey name.chars = key ∧
  (⟨name, size, false, mtime⟩ : LsEntry) ∈ entries ∧
    ∀ entry ∈ entries, windowsKey entry.name.chars = key → entry = ⟨name, size, false, mtime⟩

section Scans

variable {s : ShareSync} {files : List HostFile} {name spelled : RelPath} {size mtimeMs : Nat} {mtime : Mtime}

theorem get_readScan_of_key (hnonempty : spelled.chars ≠ [])
    (hfile : (⟨spelled, size, mtimeMs⟩ : HostFile) ∈ files)
    (honly : ∀ file ∈ files, windowsKey file.name.chars = windowsKey spelled.chars →
      file = ⟨spelled, size, mtimeMs⟩)
    (hkey : windowsKey name.chars = windowsKey spelled.chars) :
    (readScan files).get name = if name = spelled then some ⟨size, mtimeMs⟩ else none := by
  have hmem : (⟨spelled, size, mtimeMs⟩ : HostFile) ∈ files.filter fun file => file.name.chars ≠ [] :=
    List.mem_filter.2 ⟨hfile, by simpa using hnonempty⟩
  exact AssocMap.get_foldl_insert_of_only (p := fun n => windowsKey n.chars = windowsKey spelled.chars) hmem
    (fun file h => honly file (List.mem_filter.1 h).1) hkey

theorem moves_key {listed : List RelPath} {records : AssocMap RelPath FileRecord} {isListed : RelPath → Bool}
    {move : RelPath → RelPath} (h : Moves listed records isListed move) (name : RelPath) :
    windowsKey (move name).chars = windowsKey name.chars := by
  by_cases hmove : move name = name
  · rw [hmove]
  · exact (h name hmove).2.2.1

theorem get_dropHeld_of_key (hnonempty : spelled.chars ≠ [])
    (hfile : (⟨spelled, size, mtimeMs⟩ : HostFile) ∈ files)
    (honly : ∀ file ∈ files, windowsKey file.name.chars = windowsKey spelled.chars →
      file = ⟨spelled, size, mtimeMs⟩)
    (hkey : windowsKey name.chars = windowsKey spelled.chars) :
    (s.withScan files).dropHeld.hostFilesScratch.get name =
      if unseenKey spelled.chars ∈ (s.withScan files).dropHeld.hostAliased then none
      else if name = spelled then some ⟨size, mtimeMs⟩ else none := by
  have hunseen : unseenKey name.chars = unseenKey spelled.chars := unseenKey_of_windowsKey hkey
  rw [get_dropHeld, hunseen]
  exact congrArg (ite _ none) (get_readScan_of_key hnonempty hfile honly hkey)

/-- A scan that spells a synced file one way moves its record there, unless the key is held. -/
theorem scan_moves (h : Synced s name size mtimeMs mtime) (hnonempty : spelled.chars ≠ [])
    (hkey : windowsKey spelled.chars = windowsKey name.chars)
      (hfile : (⟨spelled, size, mtimeMs⟩ : HostFile) ∈ files)
    (honly : ∀ file ∈ files, windowsKey file.name.chars = windowsKey spelled.chars →
      file = ⟨spelled, size, mtimeMs⟩) :
    AssocMap.moved (s.withScan files).dropHeld.hostRenames name =
      if unseenKey spelled.chars ∈ (s.withScan files).dropHeld.hostAliased then name else spelled := by
  have hscan (other : RelPath) (hother : windowsKey other.chars = windowsKey name.chars) :=
    get_dropHeld_of_key (s := s) hnonempty hfile honly (hother.trans hkey.symm)
  have hmoves := (s.withScan files).dropHeld.hostRenames_moves
  -- a record of this key moves to the spelling only
  have htarget (hmoved : AssocMap.moved (s.withScan files).dropHeld.hostRenames name ≠ name) :
      unseenKey spelled.chars ∉ (s.withScan files).dropHeld.hostAliased ∧
        AssocMap.moved (s.withScan files).dropHeld.hostRenames name = spelled := by
    have hscanned := mem_scanned.1 (hmoves name hmoved).1.1
    rw [hscan _ (moves_key hmoves name)] at hscanned
    by_cases hheld : unseenKey spelled.chars ∈ (s.withScan files).dropHeld.hostAliased
    · rw [if_pos hheld] at hscanned
      cases hscanned
    · rw [if_neg hheld] at hscanned
      refine ⟨hheld, ?_⟩
      by_contra hne
      rw [if_neg hne] at hscanned
      cases hscanned
  by_cases hheld : unseenKey spelled.chars ∈ (s.withScan files).dropHeld.hostAliased
  · rw [if_pos hheld]
    by_contra hmoved
    exact (htarget hmoved).1 hheld
  · rw [if_neg hheld]
    by_cases hsame : name = spelled
    · by_contra hmoved
      exact hmoved ((htarget (hsame ▸ hmoved)).2)
    · refine AssocMap.moved_of_mem (renames_nodup (s.withScan files).dropHeld.hostFilesScratch.nodup).1 ?_
      refine mem_hostRenames.2 ⟨⟨?_, ?_⟩, h.onlyWithKey, hkey, h.free hkey hsame, ?_, ?_⟩
      · refine mem_scanned.2 ?_
        rw [hscan spelled hkey, if_neg hheld, if_pos rfl]
        rfl
      · intro other hother hsamekey
        have hscanned := mem_scanned.1 hother
        rw [hscan other (hsamekey.trans hkey), if_neg hheld] at hscanned
        by_contra hne
        rw [if_neg hne] at hscanned
        cases hscanned
      · rw [hscan name rfl, if_neg hheld, if_neg hsame]
        rfl
      · exact h.written

theorem get_scanStart {other : RelPath} {record : FileRecord} : (s.scanStart files).records.get other = some record ↔
    ∃ old, s.records.get old = some record ∧ AssocMap.moved (s.withScan files).dropHeld.hostRenames old = other :=
  get_adoptHostRenames

/-- **A scan that spells a synced file one way plans nothing for its key**, and the file stays synced. -/
theorem scan_quiet (h : Synced s name size mtimeMs mtime)
    (hscans : ScansAs (windowsKey name.chars) size mtimeMs files) :
    (∀ action ∈ (s.onHostScan files).2, ¬action.Touches (windowsKey name.chars)) ∧
      ∃ name', windowsKey name'.chars = windowsKey name.chars ∧
        Synced (s.onHostScan files).1 name' size mtimeMs mtime := by
  obtain ⟨spelled, hnonempty, hkey, hfile, honly⟩ := hscans
  have honly' : ∀ file ∈ files, windowsKey file.name.chars = windowsKey spelled.chars →
      file = ⟨spelled, size, mtimeMs⟩ := fun file hmem hsame => honly file hmem (hsame.trans hkey)
  have hmove := scan_moves h hnonempty hkey hfile honly'
  have hmoves := (s.withScan files).dropHeld.hostRenames_moves
  obtain ⟨record, hrecord, hsynced⟩ := h.record
  obtain ⟨_, _, hstart⟩ := scanStart_eq s files
  have hscan (other : RelPath) (hother : windowsKey other.chars = windowsKey name.chars) :
      (s.scanStart files).hostFilesScratch.get other =
        if unseenKey spelled.chars ∈ (s.scanStart files).hostAliased then none
        else if other = spelled then some ⟨size, mtimeMs⟩ else none := by
    rw [hstart]
    exact get_dropHeld_of_key hnonempty hfile honly' (hother.trans hkey.symm)
  have haliased : (s.withScan files).dropHeld.hostAliased = (s.scanStart files).hostAliased := by rw [hstart]
  rw [haliased] at hmove
  generalize hmoved : AssocMap.moved (s.withScan files).dropHeld.hostRenames name = name' at hmove
  have hkey' : windowsKey name'.chars = windowsKey name.chars := hmoved ▸ moves_key hmoves name
  -- the record of the key, and the only one
  have hrecord' : (s.scanStart files).records.get name' = some record := get_scanStart.2 ⟨name, hrecord, hmoved⟩
  have hone (other : RelPath) (record' : FileRecord) (hget : (s.scanStart files).records.get other = some record')
      (hother : windowsKey other.chars = windowsKey name.chars) : other = name' := by
    obtain ⟨old, hold, rfl⟩ := get_scanStart.1 hget
    have hname : old = name := by
      refine h.only old (by rw [hold]; rfl) ?_
      rw [← hother]
      exact (moves_key hmoves old).symm
    rw [hname, hmoved]
  refine ⟨fun action haction htouches => ?_, name', hkey', ⟨record, ?_, hsynced⟩, fun other hother hsame => ?_⟩
  · rw [onHostScan_actions, List.mem_append, List.mem_append] at haction
    rcases haction with (hskip | hget) | hdelete
    · obtain ⟨_, _, rfl⟩ := holdWindowsAliases_skips hskip
      exact htouches
    · obtain ⟨other, file, rfl, hother, hchanged, -⟩ := mem_scanGets.1 hget
      rw [hscan other htouches] at hother
      by_cases hheld : unseenKey spelled.chars ∈ (s.scanStart files).hostAliased
      · rw [if_pos hheld] at hother
        cases hother
      · rw [if_neg hheld] at hother hmove
        by_cases hname : other = spelled
        · rw [if_pos hname, Option.some.injEq] at hother
          rw [hostChanged, hname, ← hmove, hrecord', ← hother] at hchanged
          simp [hsynced.size, hsynced.host, hsynced.written, hsynced.confirmed] at hchanged
        · rw [if_neg hname] at hother
          cases hother
    · obtain ⟨other, record', rfl, hother, hscanned, hunheld, -⟩ := mem_scanDeletes.1 hdelete
      obtain rfl := hone other record' hother htouches
      rw [hscan _ hkey'] at hscanned
      by_cases hheld : unseenKey spelled.chars ∈ (s.scanStart files).hostAliased
      · -- a held name is neither scanned nor deleted
        rw [← unseenKey_of_windowsKey (hkey'.trans hkey.symm)] at hheld
        rw [hostHeld_of_key hheld] at hunheld
        cases hunheld
      · rw [if_neg hheld] at hscanned hmove
        rw [if_pos hmove] at hscanned
        exact hscanned rfl
  · exact hrecord'
  · obtain ⟨record', hget⟩ := Option.isSome_iff_exists.1 hother
    exact hone other record' hget (hsame.trans hkey')

end Scans

section Listings

variable {s : ShareSync} {entries : List LsEntry} {name spelled : RelPath} {size mtimeMs : Nat} {mtime : Mtime}

theorem mem_readListing_present : name ∈ (s.readListing entries).presentScratch ↔
    ∃ entry ∈ entries, entry.name.chars ≠ [] ∧ entry.name = name := by
  simp [readListing, and_assoc]

theorem readListing_listedPresent (s : ShareSync) (entries : List LsEntry) : (s.readListing entries).ListedPresent := by
  intro name hname
  rw [mem_readListing_present]
  rw [readListing] at hname
  dsimp only at hname
  rcases AssocMap.isSome_foldl_insert.1 hname with hmem | hempty
  · obtain ⟨entry, hentry, rfl⟩ := List.mem_map.1 hmem
    have hlisted := List.mem_filter.1 (List.mem_filter.1 hentry).1
    exact ⟨entry, hlisted.1, by simpa using hlisted.2, rfl⟩
  · cases hempty

theorem get_readListing_of_key (hnonempty : spelled.chars ≠ [])
    (hentry : (⟨spelled, size, false, mtime⟩ : LsEntry) ∈ entries)
    (honly : ∀ entry ∈ entries, windowsKey entry.name.chars = windowsKey spelled.chars →
      entry = ⟨spelled, size, false, mtime⟩)
    (hkey : windowsKey name.chars = windowsKey spelled.chars) :
    (s.readListing entries).guestFileEntriesScratch.get name = if name = spelled then some ⟨size, mtime⟩
      else none := by
  have hmem : (⟨spelled, size, false, mtime⟩ : LsEntry) ∈
      (entries.filter fun entry => entry.name.chars ≠ []).filter fun entry => !entry.isDir :=
    List.mem_filter.2 ⟨List.mem_filter.2 ⟨hentry, by simpa using hnonempty⟩, rfl⟩
  exact AssocMap.get_foldl_insert_of_only (p := fun n => windowsKey n.chars = windowsKey spelled.chars) hmem
    (fun entry h => honly entry (List.mem_filter.1 (List.mem_filter.1 h).1).1) hkey

theorem guestRenames_key (s : ShareSync) (listed : RelPath) :
    windowsKey (AssocMap.moved s.guestRenames listed).chars = windowsKey listed.chars := by
  by_cases hmoved : AssocMap.moved s.guestRenames listed = listed
  · rw [hmoved]
  · exact (mem_guestRenames.1 (AssocMap.moved_mem hmoved)).2.2.1.symm

theorem mem_aliased_present : name ∈ (s.aliased entries).presentScratch ↔
    (name ∈ (s.readListing entries).presentScratch ∧ name ∉ (s.readListing entries).guestRenames.map Prod.fst) ∨
      name ∈ (s.readListing entries).guestRenames.map Prod.snd := by
  rw [aliased, aliasGuestRenames_eq]
  refine mem_present_foldl _ (fun pair hpair pair' hpair' heq => ?_) name
  obtain ⟨-, -, -, -, -, hrecord⟩ := mem_guestRenames.1 hpair
  obtain ⟨-, -, -, hfree, -⟩ := mem_guestRenames.1 hpair'
  rw [heq, hfree] at hrecord
  cases hrecord

/-- A listing that spells a synced file one way lists it under the name of its record. -/
theorem listing_moves (h : Synced s name size mtimeMs mtime) (hnonempty : spelled.chars ≠ [])
    (hkey : windowsKey spelled.chars = windowsKey name.chars)
    (hentry : (⟨spelled, size, false, mtime⟩ : LsEntry) ∈ entries)
    (honly : ∀ entry ∈ entries, windowsKey entry.name.chars = windowsKey spelled.chars →
      entry = ⟨spelled, size, false, mtime⟩) :
    AssocMap.moved (s.readListing entries).guestRenames spelled = name ∧
      name ∈ (s.aliased entries).presentScratch := by
  rw [mem_aliased_present]
  by_cases hsame : name = spelled
  · subst hsame
    have hunmoved : name ∉ (s.readListing entries).guestRenames.map Prod.fst := by
      intro hmem
      obtain ⟨pair, hpair, rfl⟩ := List.mem_map.1 hmem
      obtain ⟨-, -, -, hfree, -⟩ := mem_guestRenames.1 hpair
      obtain ⟨record, hrecord, -⟩ := h.record
      exact nomatch hrecord.symm.trans hfree
    refine ⟨AssocMap.moved_of_not_mem hunmoved, .inl ⟨?_, hunmoved⟩⟩
    exact mem_readListing_present.2 ⟨_, hentry, hnonempty, rfl⟩
  · have hpair : (spelled, name) ∈ (s.readListing entries).guestRenames := by
      have hget (n : RelPath) (hn : windowsKey n.chars = windowsKey spelled.chars) :=
        @get_readListing_of_key s _ _ _ _ _ hnonempty hentry honly hn
      refine mem_guestRenames.2
        ⟨⟨?_, fun other hother hother' => ?_⟩, h.onlyWithKey, hkey, h.free hkey hsame, ?_, h.written⟩
      · have hspelled := hget spelled rfl
        rw [if_pos rfl] at hspelled
        exact List.mem_map_of_mem (AssocMap.mem_iff_get.2 hspelled)
      · obtain ⟨file, hfile, rfl⟩ := List.mem_map.1 hother
        have hlisted := hget file.1 hother'
        rw [AssocMap.mem_iff_get.1 hfile] at hlisted
        by_contra hne
        rw [if_neg hne] at hlisted
        cases hlisted
      · rw [decide_eq_false_iff_not, mem_readListing_present]
        rintro ⟨entry, hmem, -, heq⟩
        have honlyEntry := honly entry hmem (by rw [heq, hkey])
        rw [honlyEntry] at heq
        exact hsame heq.symm
    exact ⟨AssocMap.moved_of_mem (guestRenames_nodup _).1 hpair, .inr (List.mem_map_of_mem hpair)⟩

theorem get_aliased_of_key (h : Synced s name size mtimeMs mtime)
    (hlists : ListsAs (windowsKey name.chars) size mtime entries) {other : RelPath} {file : GuestFileStat}
    (hget : (s.aliased entries).guestFileEntriesScratch.get other = some file)
    (hother : windowsKey other.chars = windowsKey name.chars) : other = name ∧ file = ⟨size, mtime⟩ := by
  obtain ⟨spelled, hnonempty, hkey, hentry, honly⟩ := hlists
  have honly' : ∀ entry ∈ entries, windowsKey entry.name.chars = windowsKey spelled.chars →
      entry = ⟨spelled, size, false, mtime⟩ := fun entry hmem hsame => honly entry hmem (hsame.trans hkey)
  obtain ⟨hmoved, -⟩ := listing_moves h hnonempty hkey hentry honly'
  obtain ⟨listed, hlisted, rfl⟩ := (get_aliasGuestRenames (readListing_listedPresent s entries)).1 hget
  rw [guestRenames_key] at hother
  rw [get_readListing_of_key hnonempty hentry honly' (hother.trans hkey.symm)] at hlisted
  by_cases hname : listed = spelled
  · rw [if_pos hname, Option.some.injEq] at hlisted
    rw [hname, hmoved]
    exact ⟨rfl, hlisted.symm⟩
  · rw [if_neg hname] at hlisted
    cases hlisted

/-- Listed files, the one of the key with the record's size and time, leave the file synced and plan nothing for it. -/
theorem listFiles_quiet {held : Finset (List Char)} {files : List (RelPath × GuestFileStat)}
    (h : Synced s name size mtimeMs mtime)
    (hfiles : ∀ file ∈ files, windowsKey file.1.chars = windowsKey name.chars →
      file = (name, ⟨size, mtime⟩)) :
    (∀ action ∈ (s.listFiles held files).2, ¬action.Touches (windowsKey name.chars)) ∧
      Synced (s.listFiles held files).1 name size mtimeMs mtime := by
  induction files generalizing s with
  | nil => exact ⟨(by rintro _ ⟨⟩), h⟩
  | cons file files ih =>
    obtain ⟨other, entry⟩ := file
    have hhead := hfiles (other, entry) (by simp)
    have hfile := listFile_cases held s other entry
    rw [listFiles]
    dsimp only
    generalize s.listFile held other entry = result at hfile
    obtain ⟨s', actions⟩ := result
    dsimp only at hfile hhead ⊢
    have hnow : (∀ action ∈ actions, ¬action.Touches (windowsKey name.chars)) ∧
      Synced s' name size mtimeMs mtime := by
      obtain ⟨record, hrecord, hsynced⟩ := h.record
      cases hfile with
      | quiet seen actions hactions =>
        refine ⟨fun action haction htouches => ?_, h.record, h.only⟩
        obtain ⟨reason, rfl⟩ := hactions action haction
        exact htouches
      | stamped record' hrecord' =>
        refine ⟨(by rintro _ ⟨⟩), ?_, fun other' hother' => h.only other' ?_⟩
        · by_cases hname : name = other
          · subst hname
            obtain ⟨-, rfl⟩ := Prod.mk.inj (hhead rfl)
            refine ⟨{ record with guestMtime := some mtime, awaitingGuestStamp := false }, ?_, ?_⟩
            · show (s.records.modify name _).get name = _
              rw [AssocMap.get_modify, if_pos rfl, hrecord]
              rfl
            · exact ⟨hsynced.size, hsynced.host, rfl, hsynced.written, hsynced.confirmed⟩
          · refine ⟨record, ?_, hsynced⟩
            show (s.records.modify other _).get name = _
            rw [AssocMap.get_modify, if_neg hname, hrecord]
        · dsimp only at hother'
          rw [AssocMap.get_modify] at hother'
          split at hother'
          · rwa [Option.isSome_map] at hother'
          · exact hother'
      | noted hchanged =>
        refine ⟨fun action haction htouches => ?_, h.record, h.only⟩
        split at haction
        · cases haction
        · obtain rfl := List.mem_singleton.1 haction
          obtain ⟨rfl, rfl⟩ := Prod.mk.inj (hhead htouches)
          exact hchanged record hrecord hsynced.guest
    have hlater := ih hnow.2 fun file hmem => hfiles file (by simp [hmem])
    refine ⟨fun action haction => ?_, hlater.2⟩
    rcases List.mem_append.1 haction with haction | haction
    · exact hnow.1 action haction
    · exact hlater.1 action haction

/-- **A listing that spells a synced file one way plans nothing for its key**, and the file stays synced. -/
theorem listing_quiet (h : Synced s name size mtimeMs mtime)
    (hlists : ListsAs (windowsKey name.chars) size mtime entries) :
    (∀ action ∈ (s.onGuestListing entries).2, ¬action.Touches (windowsKey name.chars)) ∧
      Synced (s.onGuestListing entries).1 name size mtimeMs mtime := by
  have halias := (s.readListing entries).aliasGuestRenames_eq
  have hrecords : (s.listStart entries).records = s.records := by
    rw [listStart, aliased, dropRefusedWrites, dropFetchedOverCap, halias]
    rfl
  have hpresent : (s.listStart entries).presentScratch = (s.aliased entries).presentScratch := rfl
  have hstart : Synced (s.listStart entries) name size mtimeMs mtime :=
    ⟨by rw [hrecords]; exact h.record, by rw [hrecords]; exact h.only⟩
  have hfiles : ∀ file ∈ (s.listStart entries).guestFileEntriesScratch.entries,
      windowsKey file.1.chars = windowsKey name.chars → file = (name, ⟨size, mtime⟩) := by
    intro file hfile hkey
    have hlisted : file ∈ (s.aliased entries).guestFileEntriesScratch.entries :=
      (List.mem_filter.1 (List.mem_filter.1 hfile).1).1
    obtain ⟨other, entry⟩ := file
    obtain ⟨rfl, rfl⟩ := get_aliased_of_key h hlists (AssocMap.mem_iff_get.1 hlisted) hkey
    rfl
  obtain ⟨hactions, hsynced⟩ := @listFiles_quiet _ _ _ _ _ (s.aliased entries).pullHeldKeys _ hstart hfiles
  rw [onGuestListing_eq]
  refine ⟨fun action haction htouches => ?_, hsynced.record, hsynced.only⟩
  rcases List.mem_append.1 haction with haction | haction
  · exact hactions action haction htouches
  · obtain ⟨other, record, rfl, hother, habsent, -⟩ := mem_listDeletes.1 haction
    have hname : other = name := hsynced.only other (by
      show ((s.listEnd entries).1.records.get other).isSome
      rw [show (s.listEnd entries).1.records.get other = some record from hother]
      rfl) htouches
    obtain ⟨spelled, hnonempty, hkey, hentry, honly⟩ := hlists
    obtain ⟨-, hlisted⟩ := listing_moves h hnonempty hkey hentry fun entry hmem hsame =>
      honly entry hmem (hsame.trans hkey)
    obtain ⟨_, _, _, hframe⟩ := listFiles_frame (s.aliased entries).pullHeldKeys (s.listStart entries)
      (s.listStart entries).guestFileEntriesScratch.entries
    have hend : (s.listEnd entries).1.retainGuestSkips.presentScratch = (s.aliased entries).presentScratch := by
      show (s.listEnd entries).1.presentScratch = _
      rw [listEnd, hframe]
      exact hpresent
    rw [hend, hname] at habsent
    exact habsent hlisted

theorem aliased_listedPresent (s : ShareSync) (entries : List LsEntry) : (s.aliased entries).ListedPresent := by
  intro name hname
  obtain ⟨file, hfile⟩ := Option.isSome_iff_exists.1 hname
  obtain ⟨listed, hlisted, rfl⟩ := (get_aliasGuestRenames (readListing_listedPresent s entries)).1 hfile
  rw [mem_aliased_present]
  by_cases hmoved : AssocMap.moved (s.readListing entries).guestRenames listed = listed
  · rw [hmoved]
    refine .inl ⟨readListing_listedPresent s entries listed (by rw [hlisted]; rfl), fun hmem => ?_⟩
    obtain ⟨pair, hpair, rfl⟩ := List.mem_map.1 hmem
    obtain ⟨-, -, -, hfree, -, hrecord⟩ := mem_guestRenames.1 hpair
    rw [← AssocMap.moved_of_mem (guestRenames_nodup _).1 hpair, hmoved, hfree] at hrecord
    cases hrecord
  · exact .inr (List.mem_map_of_mem (AssocMap.moved_mem hmoved))

end Listings

/-! ## Whole scans, and runs -/

section Whole

variable {s : ShareSync} {files : List HostFile} {name : RelPath} {size mtimeMs : Nat} {mtime : Mtime}

/-- The moves of a scan are moves among all scanned names, those that it holds included. -/
theorem scan_hostRenames_moves (s : ShareSync) (files : List HostFile) :
    Moves (scanNames files) s.records (fun name => decide (name ∈ scanNames files))
      (AssocMap.moved (s.withScan files).dropHeld.hostRenames) := by
  intro old hmoved
  obtain ⟨⟨hnew, -⟩, hold, hkey, hfree, -⟩ := (s.withScan files).dropHeld.hostRenames_moves old hmoved
  have hscanned := mem_scanned.1 hnew
  rw [get_dropHeld] at hscanned
  by_cases hheld : unseenKey (AssocMap.moved (s.withScan files).dropHeld.hostRenames old).chars ∈
      (s.withScan files).dropHeld.hostAliased
  · rw [if_pos hheld] at hscanned
    cases hscanned
  · rw [if_neg hheld] at hscanned
    have hname := mem_withScan_scanned.1 (mem_scanned.2 hscanned)
    -- another scanned name of the key would hold it
    have honly : ∀ other ∈ scanNames files,
        windowsKey other.chars = windowsKey (AssocMap.moved (s.withScan files).dropHeld.hostRenames old).chars →
        other = AssocMap.moved (s.withScan files).dropHeld.hostRenames old := by
      intro other hother hsame
      by_contra hne
      refine hheld (mem_dropHeld_hostAliased.2
        ⟨_, held_withScan.2 ⟨hname, .inl ⟨other, hother, hne, ?_⟩⟩, rfl⟩)
      exact unseenKey_of_windowsKey hsame
    refine ⟨⟨hname, honly⟩, hold, hkey, hfree, decide_eq_false fun hmem => hmoved ?_⟩
    exact (honly old hmem hkey.symm).symm

theorem onHostScan_records (s : ShareSync) (files : List HostFile) : (s.onHostScan files).1.records.entries.Perm
    (s.records.entries.map fun record =>
      (AssocMap.moved (s.withScan files).dropHeld.hostRenames record.1, record.2)) := by
  obtain ⟨_, _, hstate⟩ := onHostScan_state s files
  rw [hstate]
  exact adoptHostRenames_perm _

/-- A call that finds a synced file as it is, in one spelling. -/
def Call.Spells (key : List Char) (size mtimeMs : Nat) (mtime : Mtime) : Call → Prop
  | .hostScan files => ScansAs key size mtimeMs files
  | .guestListing entries => ListsAs key size mtime entries
  | .setHostUnseen _ => True
  | _ => False

/-- **Scans and listings that spell a synced file in any case plan nothing for its key.** -/
theorem quiet_run {calls : List Call} (h : Synced s name size mtimeMs mtime)
    (hcalls : ∀ c ∈ calls, c.Spells (windowsKey name.chars) size mtimeMs mtime) :
    ∀ action ∈ (s.run calls).2, ¬action.Touches (windowsKey name.chars) := by
  induction calls generalizing s name with
  | nil => nofun
  | cons c calls ih =>
    have hstep : (∀ action ∈ (s.call c).2, ¬action.Touches (windowsKey name.chars)) ∧
        ∃ name', windowsKey name'.chars = windowsKey name.chars ∧ Synced (s.call c).1 name' size mtimeMs mtime := by
      have hc := hcalls c (by simp)
      cases c with
      | hostScan files => exact scan_quiet h hc
      | guestListing entries =>
        obtain ⟨hquiet, hsynced⟩ := listing_quiet h hc
        exact ⟨hquiet, name, rfl, hsynced⟩
      | setHostUnseen names => exact ⟨nofun, name, rfl, h.record, h.only⟩
      | _ => exact hc.elim
    obtain ⟨hnow, name', hkey, hsynced⟩ := hstep
    have hlater := ih hsynced fun c hc => by
      rw [hkey]
      exact hcalls c (by simp [hc])
    rw [hkey] at hlater
    intro action haction
    rcases List.mem_append.1 haction with haction | haction
    · exact hnow action haction
    · exact hlater action haction

end Whole

/-- What is held is not touched on either side, renames keep records and listed files, and plan nothing. -/
theorem held_aliases_and_renames :
    (∀ (s : ShareSync) (files : List HostFile) (name spelling : RelPath), Held (scanNames files) name →
      unseenKey spelling.chars = unseenKey name.chars →
      .get spelling ∉ (s.onHostScan files).2 ∧ .deleteGuest spelling ∉ (s.onHostScan files).2 ∧
      ∀ calls : List Call, (∀ c ∈ calls, c.isScan = false) → ∀ entries : List LsEntry,
        .get spelling ∉ (((s.onHostScan files).1.run calls).1.onGuestListing entries).2 ∧
        .deleteHost spelling ∉ (((s.onHostScan files).1.run calls).1.onGuestListing entries).2) ∧
    (∀ s : ShareSync, ∃ move,
      s.adoptHostRenames.records.entries.Perm (s.records.entries.map fun record => (move record.1, record.2)) ∧
      Moves s.scanned s.records (fun name => (s.hostFilesScratch.get name).isSome) move) ∧
    (∀ (s : ShareSync) (files : List HostFile), ∃ move,
      (s.onHostScan files).1.records.entries.Perm (s.records.entries.map fun record => (move record.1, record.2)) ∧
      Moves (scanNames files) s.records (fun name => decide (name ∈ scanNames files)) move) ∧
    (∀ (s : ShareSync) (entries : List LsEntry), ∃ move : RelPath → RelPath,
      (s.aliased entries).guestFileEntriesScratch.entries.Perm
        ((s.readListing entries).guestFileEntriesScratch.entries.map fun file => (move file.1, file.2)) ∧
      (s.aliased entries).ListedPresent ∧ ∀ name, move name ≠ name →
        OnlyWithKey (s.readListing entries).listedFiles name ∧
          OnlyWithKey (s.records.entries.map Prod.fst) (move name) ∧
          windowsKey (move name).chars = windowsKey name.chars) ∧
    ∀ (s : ShareSync) (name : RelPath) (size mtimeMs : Nat) (mtime : Mtime) (calls : List Call),
      Synced s name size mtimeMs mtime → (∀ c ∈ calls, c.Spells (windowsKey name.chars) size mtimeMs mtime) →
      ∀ action ∈ (s.run calls).2, ¬action.Touches (windowsKey name.chars) := by
  refine ⟨?_, ?_, ?_, ?_, fun s name size mtimeMs mtime calls h hcalls => quiet_run h hcalls⟩
  · intro s files name spelling hheld hkey
    have haliased : unseenKey spelling.chars ∈ (s.onHostScan files).1.hostAliased :=
      onHostScan_hostAliased.2 ⟨name, hheld, hkey.symm⟩
    refine ⟨fun h => ?_, fun h => ?_, fun calls hcalls entries => ?_⟩
    · rcases onHostScan_names h with ⟨_, _, h⟩ | ⟨_, h, hname⟩ | ⟨_, h, -⟩
      · cases h
      · cases h
        exact hname haliased
      · cases h
    · rcases onHostScan_names h with ⟨_, _, h⟩ | ⟨_, h, -⟩ | ⟨_, h, hname⟩
      · cases h
      · cases h
      · cases h
        exact hname haliased
    · rw [← run_hostAliased hcalls] at haliased
      refine ⟨fun h => ?_, fun h => ?_⟩
      · rcases onGuestListing_names h with ⟨_, _, h⟩ | ⟨_, h, hname⟩ | ⟨_, h, -⟩
        · cases h
        · cases h
          exact hname haliased
        · cases h
      · rcases onGuestListing_names h with ⟨_, _, h⟩ | ⟨_, h, -⟩ | ⟨_, h, hname⟩
        · cases h
        · cases h
        · cases h
          exact hname haliased
  · exact fun s => ⟨_, s.adoptHostRenames_perm, s.hostRenames_moves⟩
  · exact fun s files => ⟨_, onHostScan_records s files, scan_hostRenames_moves s files⟩
  · intro s entries
    refine ⟨_, aliasGuestRenames_perm (readListing_listedPresent s entries), aliased_listedPresent s entries,
      fun name hmoved => ?_⟩
    obtain ⟨hlisted, hrecord, hkey, -⟩ := mem_guestRenames.1 (AssocMap.moved_mem hmoved)
    exact ⟨hlisted, hrecord, hkey.symm⟩

/-- `A` next to `a` in a scan. -/
def twinScan : List HostFile := [⟨normalizeRel ['a'], 3, 10⟩, ⟨normalizeRel ['A'], 4, 20⟩]

/-- `a` is the same on both sides. -/
def syncedTwin : ShareSync :=
  { ShareSync.new 512 with
    records := AssocMap.empty.insert (normalizeRel ['a'])
      { size := 3, hash := 0, hostMtimeMs := some 10, guestMtime := some [], awaitingGuestStamp := false,
        hostWriteFailed := false, putUnconfirmed := false } }

/-- Twins are held: the guest's file of their key is neither fetched nor deleted. A synced file that both sides spell in
upper case is left alone. -/
theorem held_aliases_and_renames_twins :
    .get (normalizeRel ['a']) ∉ ((ShareSync.new 512).onHostScan twinScan).2 ∧
      .get (normalizeRel ['a']) ∉
        (((ShareSync.new 512).onHostScan twinScan).1.onGuestListing [⟨normalizeRel ['a'], 5, false, []⟩]).2 ∧
      ∀ action ∈ (syncedTwin.run [.hostScan [⟨normalizeRel ['A'], 3, 10⟩],
          .guestListing [⟨normalizeRel ['A'], 3, false, []⟩]]).2,
          ¬action.Touches (windowsKey (normalizeRel ['a']).chars) := by
  obtain ⟨hget, -, hruns⟩ := held_aliases_and_renames.1 (ShareSync.new 512) twinScan (normalizeRel ['A'])
    (normalizeRel ['a']) ⟨by decide, .inl ⟨normalizeRel ['a'], by decide, by decide, by decide⟩⟩ (by decide)
  refine ⟨hget, (hruns [] nofun _).1, held_aliases_and_renames.2.2.2.2 syncedTwin (normalizeRel ['a']) 3 10 [] _
    ⟨⟨_, rfl, rfl, rfl, rfl, rfl, rfl⟩, fun other hother _ => ?_⟩ fun c hc => ?_⟩
  · by_contra hne
    rw [show syncedTwin.records = AssocMap.empty.insert (normalizeRel ['a']) _ from rfl,
      AssocMap.get_insert, if_neg hne]
      at hother
    cases hother
  · simp only [List.mem_cons, List.not_mem_nil, or_false] at hc
    obtain rfl | rfl := hc
    · exact ⟨normalizeRel ['A'], by decide, by decide, List.mem_singleton_self _,
        fun file hfile _ => List.mem_singleton.1 hfile⟩
    · exact ⟨normalizeRel ['A'], by decide, by decide, List.mem_singleton_self _,
        fun file hfile _ => List.mem_singleton.1 hfile⟩

end BridgeVm.Share
