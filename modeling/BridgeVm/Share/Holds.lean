import BridgeVm.Share.Renames

/-!
# Holds of names that Windows cannot keep apart (`share_win_alias.rs`)

A scan holds the keys of twins and of names below trimmed folders. Their names leave the scan, and no call before the
next scan changes what is held (`run_hostAliased`), so nothing is planned for a held key on either side.
-/

namespace BridgeVm.Share

open Lib ShareSync

/-! ## What is held -/

section Groups

variable {names : List RelPath} {name : RelPath} {key : List Char}

/-- A name with a twin, or below a folder that Windows trims. -/
def Held (names : List RelPath) (name : RelPath) : Prop :=
  name ∈ names ∧ ((∃ other ∈ names, other ≠ name ∧ unseenKey other.chars = unseenKey name.chars) ∨
    folderTrimmedByWindows name.chars = true)

/-- The names of a key, component by component. -/
def withUnseenKey (names : List RelPath) (key : List Char) : List RelPath :=
  names.filter fun name => unseenKey name.chars = key

theorem get_aliasGroups (names : List RelPath) (key : List Char) :
    (aliasGroups names).get key = if withUnseenKey names key = [] then none else some (withUnseenKey names key) := by
  unfold aliasGroups
  induction names using List.reverseRecOn with
  | nil => rfl
  | append_singleton names name ih =>
    rw [List.foldl_append, withUnseenKey, List.filter_append]
    simp only [List.foldl_cons, List.foldl_nil]
    generalize names.foldl _ _ = groups at ih ⊢
    rw [AssocMap.get_insert]
    by_cases hkey : unseenKey name.chars = key
    · have hone : [name].filter (fun n => unseenKey n.chars = key) = [name] := by simp [hkey]
      rw [hone, if_pos hkey.symm, if_neg (by simp), hkey, ih]
      by_cases hnil : withUnseenKey names key = []
      · rw [if_pos hnil, ← withUnseenKey, hnil]
        rfl
      · rw [if_neg hnil]
        rfl
    · have hnone : [name].filter (fun n => unseenKey n.chars = key) = [] := by simp [hkey]
      rw [hnone, if_neg (Ne.symm hkey), ih, List.append_nil]
      rfl

theorem mem_withUnseenKey : name ∈ withUnseenKey names key ↔ name ∈ names ∧ unseenKey name.chars = key := by
  rw [withUnseenKey, List.mem_filter, decide_eq_true_eq]

/-- The group of a key is held if and only if a name of the key is. -/
theorem heldGroup_iff (hnodup : names.Nodup) (hnames : withUnseenKey names key ≠ []) :
    heldGroup (withUnseenKey names key) = true ↔ ∃ name, Held names name ∧ unseenKey name.chars = key := by
  have hmem (n : RelPath) : n ∈ withUnseenKey names key ↔ _ := mem_withUnseenKey
  have hgroup : (withUnseenKey names key).Nodup := hnodup.filter _
  generalize withUnseenKey names key = group at hnames hmem hgroup
  cases group with
  | nil => exact absurd rfl hnames
  | cons first rest =>
    obtain ⟨hfirst, hkey⟩ := (hmem first).1 (by simp)
    cases rest with
    | nil =>
      rw [heldGroup]
      constructor
      · exact fun htrimmed => ⟨first, ⟨hfirst, .inr htrimmed⟩, hkey⟩
      · rintro ⟨name, ⟨hname, htwin | htrimmed⟩, hname'⟩
        · obtain ⟨other, hother, hne, hsame⟩ := htwin
          have h1 := List.mem_singleton.1 ((hmem name).2 ⟨hname, hname'⟩)
          have h2 := List.mem_singleton.1 ((hmem other).2 ⟨hother, hsame.trans hname'⟩)
          exact absurd (h2.trans h1.symm) hne
        · have h1 := List.mem_singleton.1 ((hmem name).2 ⟨hname, hname'⟩)
          rw [← h1]
          exact htrimmed
    | cons second rest =>
      obtain ⟨hsecond, hkey'⟩ := (hmem second).1 (by simp)
      have hne : second ≠ first := by
        rw [List.nodup_cons] at hgroup
        rintro rfl
        exact hgroup.1 (by simp)
      refine iff_of_true rfl ⟨first, ⟨hfirst, .inl ⟨second, hsecond, hne, ?_⟩⟩, hkey⟩
      rw [hkey, hkey']

end Groups

section Scan

variable {s : ShareSync} {name : RelPath} {key : List Char}

theorem mem_scanned : name ∈ s.scanned ↔ (s.hostFilesScratch.get name).isSome := by
  rw [← not_iff_not, Bool.not_eq_true, Option.isSome_eq_false_iff, Option.isNone_iff_eq_none]
  exact AssocMap.get_eq_none.symm

theorem mem_heldGroups {group : List RelPath} : (key, group) ∈ s.heldGroups ↔
    (∃ name, Held s.scanned name ∧ unseenKey name.chars = key) ∧ group = withUnseenKey s.scanned key := by
  unfold heldGroups
  rw [List.mem_filter, AssocMap.mem_iff_get, get_aliasGroups]
  show (if withUnseenKey s.scanned key = [] then none else some (withUnseenKey s.scanned key)) = some group ∧ _ ↔ _
  by_cases hnil : withUnseenKey s.scanned key = []
  · rw [if_pos hnil]
    constructor
    · exact fun h => nomatch h.1
    · rintro ⟨⟨name, hheld, hkey⟩, -⟩
      have hmem : name ∈ withUnseenKey s.scanned key := mem_withUnseenKey.2 ⟨hheld.1, hkey⟩
      rw [hnil] at hmem
      cases hmem
  · have hgroup : heldGroup (withUnseenKey s.scanned key) = true ↔ _ := heldGroup_iff s.hostFilesScratch.nodup hnil
    rw [if_neg hnil, ← hgroup, Option.some.injEq]
    constructor
    · rintro ⟨rfl, hgroup⟩
      exact ⟨hgroup, rfl⟩
    · rintro ⟨hgroup, rfl⟩
      exact ⟨rfl, hgroup⟩

theorem mem_dropHeld_hostAliased :
    key ∈ s.dropHeld.hostAliased ↔ ∃ name, Held s.scanned name ∧ unseenKey name.chars = key := by
  rw [dropHeld, List.mem_toFinset, List.mem_map]
  constructor
  · rintro ⟨⟨key', group⟩, hgroup, rfl⟩
    exact (mem_heldGroups.1 hgroup).1
  · exact fun hheld => ⟨(key, withUnseenKey s.scanned key), mem_heldGroups.2 ⟨hheld, rfl⟩, rfl⟩

/-- The names that stay in the scan are those whose key is not held. -/
theorem get_dropHeld : s.dropHeld.hostFilesScratch.get name =
    if unseenKey name.chars ∈ s.dropHeld.hostAliased then none else s.hostFilesScratch.get name := by
  have hdropped : name ∈ s.heldGroups.flatMap Prod.snd ↔
      unseenKey name.chars ∈ s.dropHeld.hostAliased ∧ name ∈ s.scanned := by
    rw [List.mem_flatMap, mem_dropHeld_hostAliased]
    constructor
    · rintro ⟨⟨key, group⟩, hgroup, hname⟩
      obtain ⟨hheld, rfl⟩ := mem_heldGroups.1 hgroup
      obtain ⟨hscanned, rfl⟩ := mem_withUnseenKey.1 hname
      exact ⟨hheld, hscanned⟩
    · rintro ⟨hheld, hscanned⟩
      exact ⟨_, mem_heldGroups.2 ⟨hheld, rfl⟩, mem_withUnseenKey.2 ⟨hscanned, rfl⟩⟩
  show (s.hostFilesScratch.retain _).get name = _
  rw [AssocMap.get_retain]
  cases hget : s.hostFilesScratch.get name with
  | none => simp
  | some file =>
    have hscanned : name ∈ s.scanned := mem_scanned.2 (by rw [hget]; rfl)
    by_cases hheld : unseenKey name.chars ∈ s.dropHeld.hostAliased
    · rw [if_pos hheld, Option.filter_some, if_neg (by simpa using hdropped.2 ⟨hheld, hscanned⟩)]
    · rw [if_neg hheld, Option.filter_some, if_pos (by simpa using fun h => hheld (hdropped.1 h).1)]

end Scan

/-! ## What scans plan -/

section HostScan

variable {s : ShareSync} {files : List HostFile} {name : RelPath}

/-- The names of a scan: those of its files. -/
def scanNames (files : List HostFile) : List RelPath :=
  (files.filter fun file => file.name.chars ≠ []).map HostFile.name

theorem mem_withScan_scanned : name ∈ (s.withScan files).scanned ↔ name ∈ scanNames files := by
  rw [mem_scanned]
  show ((readScan files).get name).isSome ↔ _
  rw [readScan, AssocMap.isSome_foldl_insert, scanNames]
  simp

theorem held_withScan : Held (s.withScan files).scanned name ↔ Held (scanNames files) name := by
  unfold Held
  simp only [mem_withScan_scanned]

/-- What the planning of a scan starts from. -/
def ShareSync.scanStart (s : ShareSync) (files : List HostFile) : ShareSync :=
  (s.withScan files).dropHeld.adoptHostRenames

theorem scanStart_eq (s : ShareSync) (files : List HostFile) :
    ∃ pendingGuestMtime pendingHostChanged, s.scanStart files =
      { (s.withScan files).dropHeld with
        records := (s.withScan files).dropHeld.hostRenames.foldl (fun m pair => m.rename pair.1 pair.2) s.records
        pendingGuestMtime
        pendingHostChanged } :=
  (s.withScan files).dropHeld.adoptHostRenames_eq

theorem onHostScan_state (s : ShareSync) (files : List HostFile) : ∃ putRejected pendingHostChanged,
    (s.onHostScan files).1 = { s.scanStart files with putRejected, pendingHostChanged } :=
  ⟨_, _, rfl⟩

theorem scanStart_hostAliased {key : List Char} : key ∈ (s.scanStart files).hostAliased ↔
    ∃ name, Held (scanNames files) name ∧ unseenKey name.chars = key := by
  obtain ⟨_, _, heq⟩ := scanStart_eq s files
  rw [heq]
  show key ∈ (s.withScan files).dropHeld.hostAliased ↔ _
  rw [mem_dropHeld_hostAliased]
  simp only [held_withScan]

theorem onHostScan_hostAliased {key : List Char} : key ∈ (s.onHostScan files).1.hostAliased ↔
    ∃ name, Held (scanNames files) name ∧ unseenKey name.chars = key := by
  obtain ⟨_, _, heq⟩ := onHostScan_state s files
  rw [heq]
  exact scanStart_hostAliased

theorem holdWindowsAliases_skips {s : ShareSync} {action : SyncAction} (h : action ∈ s.holdWindowsAliases.2) :
    ∃ name reason, action = .skip name reason := by
  obtain ⟨⟨key, names⟩, -, haction⟩ := List.mem_filterMap.1 h
  dsimp only at haction
  by_cases hheld : key ∈ s.hostAliased
  · rw [if_pos hheld] at haction
    cases haction
  · rw [if_neg hheld, Option.map_eq_some_iff] at haction
    obtain ⟨name, -, rfl⟩ := haction
    exact ⟨name, _, rfl⟩

theorem onHostScan_actions (s : ShareSync) (files : List HostFile) :
    (s.onHostScan files).2 =
      (s.withScan files).holdWindowsAliases.2 ++ (s.scanStart files).scanGets ++ (s.scanStart files).scanDeletes :=
  rfl

theorem mem_scanGets {action : SyncAction} : action ∈ s.scanGets ↔
    ∃ name file, action = .get name ∧ s.hostFilesScratch.get name = some file ∧ s.hostChanged name file = true ∧
      s.putRejected.get name ≠ some file := by
  rw [scanGets, changedFiles, List.mem_filterMap]
  constructor
  · rintro ⟨⟨name, file⟩, hfile, haction⟩
    rw [List.mem_filter, AssocMap.mem_iff_get] at hfile
    dsimp only at hfile haction
    by_cases hrejected : s.putRejected.get name = some file
    · rw [if_pos hrejected] at haction
      cases haction
    · rw [if_neg hrejected, Option.some.injEq] at haction
      exact ⟨name, file, haction.symm, hfile.1, hfile.2, hrejected⟩
  · rintro ⟨name, file, rfl, hfile, hchanged, hrejected⟩
    exact ⟨(name, file), List.mem_filter.2 ⟨AssocMap.mem_iff_get.2 hfile, hchanged⟩, if_neg hrejected⟩

theorem mem_scanDeletes {action : SyncAction} : action ∈ s.scanDeletes ↔
    ∃ name record, action = .deleteGuest name ∧ s.records.get name = some record ∧
      ¬(s.hostFilesScratch.get name).isSome ∧ s.hostHeld name = false ∧ record.hostWriteFailed = false ∧
      ¬(s.pendingGuestMtime.get name).isSome := by
  rw [scanDeletes, List.mem_filterMap]
  constructor
  · rintro ⟨⟨name, record⟩, hrecord, haction⟩
    rw [AssocMap.mem_iff_get] at hrecord
    dsimp only at haction
    by_cases hkept : (s.hostFilesScratch.get name).isSome ∨ s.hostHeld name = true ∨ record.hostWriteFailed ∨
        (s.pendingGuestMtime.get name).isSome
    · rw [if_pos hkept] at haction
      cases haction
    · rw [if_neg hkept, Option.some.injEq] at haction
      simp only [not_or, Bool.not_eq_true] at hkept
      exact ⟨name, record, haction.symm, hrecord, by simpa using hkept.1, hkept.2.1, hkept.2.2.1, by
        simpa using hkept.2.2.2⟩
  · rintro ⟨name, record, rfl, hrecord, hscanned, hheld, hfailed, hpending⟩
    refine ⟨(name, record), AssocMap.mem_iff_get.2 hrecord, if_neg ?_⟩
    simp only [not_or, hheld, hfailed]
    exact ⟨hscanned, by decide, by decide, hpending⟩

/-- A scan fetches scanned names only, and deletes names that it does not hold. -/
theorem onHostScan_names {action : SyncAction} (h : action ∈ (s.onHostScan files).2) :
    (∃ name reason, action = .skip name reason) ∨
      (∃ name, action = .get name ∧ unseenKey name.chars ∉ (s.onHostScan files).1.hostAliased) ∨
      ∃ name, action = .deleteGuest name ∧ unseenKey name.chars ∉ (s.onHostScan files).1.hostAliased := by
  obtain ⟨_, _, hstate⟩ := onHostScan_state s files
  obtain ⟨_, _, hstart⟩ := scanStart_eq s files
  rw [onHostScan_actions, List.mem_append, List.mem_append] at h
  rw [hstate]
  dsimp only
  rcases h with (hskip | hget) | hdelete
  · exact .inl (holdWindowsAliases_skips hskip)
  · obtain ⟨name, file, rfl, hfile, -⟩ := mem_scanGets.1 hget
    refine .inr (.inl ⟨name, rfl, fun hheld => ?_⟩)
    rw [hstart] at hfile hheld
    dsimp only at hfile hheld
    rw [get_dropHeld, if_pos hheld] at hfile
    cases hfile
  · obtain ⟨name, record, rfl, -, -, hheld, -⟩ := mem_scanDeletes.1 hdelete
    refine .inr (.inr ⟨name, rfl, fun haliased => ?_⟩)
    rw [hostHeld, decide_eq_true haliased, Bool.or_true] at hheld
    cases hheld

end HostScan

/-! ## What listings plan -/

section GuestListing

variable {s : ShareSync} {held : Finset (List Char)} {name : RelPath} {entry : GuestFileStat}

/-- What a listed file may do: report its size, be stamped, or be noted and fetched. -/
inductive ListFile (s : ShareSync) (name : RelPath) (entry : GuestFileStat) : ShareSync → List SyncAction → Prop
  | quiet (seen : Finset (RelPath × Mtime)) (actions : List SyncAction)
      (hactions : ∀ action ∈ actions, ∃ reason, action = .skip name reason) :
      ListFile s name entry { s with guestSkipSeen := seen } actions
  | stamped (record : FileRecord) (hrecord : s.records.get name = some record) :
      ListFile s name entry
        { s with records := s.records.modify name fun record =>
            { record with guestMtime := some entry.mtime, awaitingGuestStamp := false } } []
  | noted (hchanged : ∀ record, s.records.get name = some record → record.guestMtime ≠ some entry.mtime) :
      ListFile s name entry { s with pendingGuestMtime := s.pendingGuestMtime.insert name entry.mtime }
        (if s.hostHeld name then [] else [.get name])

theorem listFile_cases (held : Finset (List Char)) (s : ShareSync) (name : RelPath) (entry : GuestFileStat) :
    ListFile s name entry (s.listFile held name entry).1 (s.listFile held name entry).2 := by
  have hquiet : ListFile s name entry s [] := .quiet s.guestSkipSeen [] nofun
  unfold listFile
  by_cases hsize : s.maxBytes < entry.size
  · rw [if_pos hsize]
    by_cases hseen : (name, entry.mtime) ∈ s.guestSkipSeen
    · rw [if_pos hseen]
      exact hquiet
    · rw [if_neg hseen]
      exact .quiet _ _ fun action haction => ⟨_, List.mem_singleton.1 haction⟩
  · rw [if_neg hsize]
    by_cases hheld : windowsKey name.chars ∈ held
    · rw [if_pos hheld]
      exact hquiet
    · rw [if_neg hheld, listVersion]
      cases hrecord : s.records.get name with
      | none => exact .noted fun record hsome => nomatch hrecord.symm.trans hsome
      | some record =>
        dsimp only
        by_cases hstamp : record.awaitingGuestStamp = true ∧ entry.size = record.size
        · rw [if_pos hstamp]
          exact .stamped record hrecord
        · rw [if_neg hstamp]
          dsimp only
          by_cases hchanged : record.guestMtime = some entry.mtime
          · simp only [hchanged, ne_eq, not_true, decide_false]
            exact hquiet
          · simp only [ne_eq, hchanged, not_false_iff, decide_true, if_true]
            refine .noted fun record' hsome => ?_
            obtain rfl := Option.some.inj (hrecord.symm.trans hsome)
            exact hchanged

theorem listFiles_frame (held : Finset (List Char)) (s : ShareSync) (files : List (RelPath × GuestFileStat)) :
    ∃ guestSkipSeen records pendingGuestMtime,
      (s.listFiles held files).1 = { s with guestSkipSeen, records, pendingGuestMtime } := by
  induction files generalizing s with
  | nil => exact ⟨_, _, _, rfl⟩
  | cons file files ih =>
    obtain ⟨name, entry⟩ := file
    have hfile := listFile_cases held s name entry
    rw [listFiles]
    dsimp only
    generalize s.listFile held name entry = result at hfile
    obtain ⟨s', actions⟩ := result
    obtain ⟨seen, records, pending, hrest⟩ := ih s'
    refine ⟨seen, records, pending, ?_⟩
    dsimp only at hfile ⊢
    rw [hrest]
    cases hfile with
    | quiet seen' actions hactions => rfl
    | stamped record hrecord => rfl
    | noted hchanged => rfl

/-- Listed files are reported, or fetched under names that are not held. -/
theorem listFiles_actions {files : List (RelPath × GuestFileStat)} {action : SyncAction}
    (h : action ∈ (s.listFiles held files).2) :
    (∃ name reason, action = .skip name reason) ∨ ∃ name, action = .get name ∧ s.hostHeld name = false := by
  induction files generalizing s with
  | nil => cases h
  | cons file files ih =>
    obtain ⟨name, entry⟩ := file
    have hfile := listFile_cases held s name entry
    rw [listFiles] at h
    dsimp only at h
    generalize s.listFile held name entry = result at hfile h
    obtain ⟨s', actions⟩ := result
    dsimp only at hfile h
    have hheld : ∀ other, s'.hostHeld other = s.hostHeld other := by
      intro other
      cases hfile with
      | quiet seen' actions hactions => rfl
      | stamped record hrecord => rfl
      | noted hchanged => rfl
    rcases List.mem_append.1 h with hnow | hlater
    · clear h
      cases hfile with
      | quiet seen' actions hactions =>
        obtain ⟨reason, rfl⟩ := hactions action hnow
        exact .inl ⟨name, reason, rfl⟩
      | stamped record hrecord => cases hnow
      | noted hchanged =>
        cases hname : s.hostHeld name with
        | true =>
          rw [hname] at hnow
          cases hnow
        | false =>
          rw [hname] at hnow
          exact .inr ⟨name, List.mem_singleton.1 hnow, hname⟩
    · simpa only [hheld] using ih hlater

theorem mem_listDeletes {action : SyncAction} : action ∈ s.listDeletes ↔
    ∃ name record, action = .deleteHost name ∧ s.records.get name = some record ∧ name ∉ s.presentScratch ∧
      record.hostWriteFailed = false ∧ name ∉ s.pendingHostChanged ∧ s.hostHeld name = false := by
  rw [listDeletes, List.mem_filterMap]
  constructor
  · rintro ⟨⟨name, record⟩, hrecord, haction⟩
    rw [AssocMap.mem_iff_get] at hrecord
    dsimp only at haction
    by_cases hkept : name ∈ s.presentScratch ∨ record.hostWriteFailed ∨ name ∈ s.pendingHostChanged ∨
        s.hostHeld name = true
    · rw [if_pos hkept] at haction
      cases haction
    · rw [if_neg hkept, Option.some.injEq] at haction
      simp only [not_or, Bool.not_eq_true] at hkept
      exact ⟨name, record, haction.symm, hrecord, hkept⟩
  · rintro ⟨name, record, rfl, hrecord, hpresent, hfailed, hpending, hheld⟩
    refine ⟨(name, record), AssocMap.mem_iff_get.2 hrecord, if_neg ?_⟩
    simp only [not_or, hheld, hfailed]
    exact ⟨hpresent, by decide, hpending, by decide⟩

/-- A listing with its renames aliased. -/
def ShareSync.aliased (s : ShareSync) (entries : List LsEntry) : ShareSync :=
  (s.readListing entries).aliasGuestRenames

/-- The state in which the files of a listing are taken in turn. -/
def ShareSync.listStart (s : ShareSync) (entries : List LsEntry) : ShareSync :=
  (s.aliased entries).dropFetchedOverCap.dropRefusedWrites

/-- The state after the files of a listing. -/
def ShareSync.listEnd (s : ShareSync) (entries : List LsEntry) : ShareSync × List SyncAction :=
  (s.listStart entries).listFiles (s.aliased entries).pullHeldKeys
    (s.listStart entries).guestFileEntriesScratch.entries

theorem onGuestListing_eq (s : ShareSync) (entries : List LsEntry) :
    s.onGuestListing entries = ((s.listEnd entries).1.retainGuestSkips,
      (s.listEnd entries).2 ++ (s.listEnd entries).1.retainGuestSkips.listDeletes) :=
  rfl

theorem listStart_held (s : ShareSync) (entries : List LsEntry) :
    (s.listStart entries).hostAliased = s.hostAliased ∧ (s.listStart entries).hostUnseen = s.hostUnseen := by
  have halias := (s.readListing entries).aliasGuestRenames_eq
  rw [listStart, aliased, dropRefusedWrites, dropFetchedOverCap, halias]
  exact ⟨rfl, rfl⟩

theorem listEnd_held (s : ShareSync) (entries : List LsEntry) :
    (s.listEnd entries).1.hostAliased = s.hostAliased ∧ (s.listEnd entries).1.hostUnseen = s.hostUnseen := by
  obtain ⟨_, _, _, hframe⟩ := listFiles_frame (s.aliased entries).pullHeldKeys (s.listStart entries)
    (s.listStart entries).guestFileEntriesScratch.entries
  rw [listEnd, hframe]
  exact listStart_held s entries

theorem hostHeld_of_key (h : unseenKey name.chars ∈ s.hostAliased) : s.hostHeld name = true := by
  rw [hostHeld, decide_eq_true h, Bool.or_true]

theorem onGuestListing_names {entries : List LsEntry} {action : SyncAction}
    (h : action ∈ (s.onGuestListing entries).2) :
    (∃ name reason, action = .skip name reason) ∨
      (∃ name, action = .get name ∧ unseenKey name.chars ∉ s.hostAliased) ∨
      ∃ name, action = .deleteHost name ∧ unseenKey name.chars ∉ s.hostAliased := by
  rw [onGuestListing_eq] at h
  rcases List.mem_append.1 h with h | h
  · rcases listFiles_actions h with hskip | ⟨name, rfl, hheld⟩
    · exact .inl hskip
    · refine .inr (.inl ⟨name, rfl, fun haliased => ?_⟩)
      rw [← (listStart_held s entries).1] at haliased
      rw [hostHeld_of_key haliased] at hheld
      cases hheld
  · obtain ⟨name, record, rfl, -, -, -, -, hheld⟩ := mem_listDeletes.1 h
    refine .inr (.inr ⟨name, rfl, fun haliased => ?_⟩)
    rw [← (listEnd_held s entries).1] at haliased
    have hsame : (s.listEnd entries).1.retainGuestSkips.hostHeld name = true := hostHeld_of_key haliased
    rw [hsame] at hheld
    cases hheld

end GuestListing

/-! ## Runs -/

section Runs

variable {s : ShareSync}

def Call.isScan : Call → Bool
  | .hostScan _ => true
  | _ => false

/-- Only scans change what is held. -/
theorem call_hostAliased {c : Call} (h : c.isScan = false) : (s.call c).1.hostAliased = s.hostAliased := by
  cases c with
  | hostScan files => cases h
  | guestListing entries => exact (listEnd_held s entries).1
  | hostFile name bytes mtimeMs =>
    rw [ShareSync.call, onHostFile]
    dsimp only
    split
    · rfl
    · split
      · split <;> rfl
      · rfl
  | putRejected name =>
    rw [ShareSync.call, onPutRejected]
    dsimp only
    split <;> rfl
  | guestFile name bytes mtime =>
    rw [ShareSync.call]
    unfold onGuestFile refuseOverCap
    cases mtime with
    | none =>
      dsimp only
      split
      · cases s.pendingGuestMtime.get (normalizeRel name) <;> rfl
      · split <;> rfl
    | some mtime =>
      dsimp only
      split
      · rfl
      · split <;> rfl
  | hostWriteError name persistent =>
    rw [ShareSync.call, onHostWriteError]
    dsimp only
    split
    · split <;> rfl
    · rfl
  | _ => rfl

theorem run_hostAliased {calls : List Call} (h : ∀ c ∈ calls, c.isScan = false) :
    (s.run calls).1.hostAliased = s.hostAliased := by
  induction calls generalizing s with
  | nil => rfl
  | cons c calls ih =>
    rw [ShareSync.run]
    dsimp only
    rw [ih fun c hc => h c (by simp [hc]), call_hostAliased (h c (by simp))]

end Runs

end BridgeVm.Share
