import BridgeVm.Share.Engine

/-!
# Renames of case (`share_win_names.rs`)

A rename pairs the one name of a key on one side with the one record of that key, so the pairs move records, and listed
files, one to one (`adoptHostRenames_moves`, `aliasGuestRenames_moves`).
-/

namespace BridgeVm.Share

open Lib

section Pairs

variable {names listed : List RelPath} {records : AssocMap RelPath FileRecord} {isListed : RelPath → Bool}
  {name new old : RelPath} {key : List Char}

/-- The one name of its key. -/
def OnlyWithKey (names : List RelPath) (name : RelPath) : Prop :=
  name ∈ names ∧ ∀ other ∈ names, windowsKey other.chars = windowsKey name.chars → other = name

/-- The names of a key. -/
def withKey (names : List RelPath) (key : List Char) : List RelPath :=
  names.filter fun name => windowsKey name.chars = key

theorem get_uniqueByKey (names : List RelPath) (key : List Char) :
    (uniqueByKey names).get key =
      match withKey names key with
      | [] => none
      | [name] => some (some name)
      | _ => some none := by
  unfold uniqueByKey
  induction names using List.reverseRecOn with
  | nil => rfl
  | append_singleton names name ih =>
    rw [List.foldl_append, withKey, List.filter_append]
    simp only [List.foldl_cons, List.foldl_nil]
    generalize names.foldl _ _ = map at ih ⊢
    by_cases hkey : windowsKey name.chars = key
    · have hone : [name].filter (fun n => windowsKey n.chars = key) = [name] := by simp [hkey]
      rw [hone, hkey, ih]
      unfold withKey
      cases names.filter fun n => windowsKey n.chars = key with
      | nil => simp
      | cons first rest =>
        cases rest with
        | nil => simp
        | cons second rest => simp
    · have hnone : [name].filter (fun n => windowsKey n.chars = key) = [] := by simp [hkey]
      rw [hnone, List.append_nil, ← withKey, ← ih]
      cases map.get (windowsKey name.chars) with
      | none => simp [Ne.symm hkey]
      | some other => simp [Ne.symm hkey]

theorem withKey_eq_singleton (hnodup : names.Nodup) :
    withKey names key = [name] ↔ OnlyWithKey names name ∧ windowsKey name.chars = key := by
  have hmem (n : RelPath) : n ∈ withKey names key ↔ n ∈ names ∧ windowsKey n.chars = key := by
    rw [withKey, List.mem_filter, decide_eq_true_eq]
  constructor
  · intro h
    rw [h] at hmem
    obtain ⟨hname, hkey⟩ := (hmem name).1 (by simp)
    refine ⟨⟨hname, fun other hother hsame => ?_⟩, hkey⟩
    exact List.mem_singleton.1 ((hmem other).2 ⟨hother, hsame.trans hkey⟩)
  · rintro ⟨⟨hname, honly⟩, hkey⟩
    refine List.perm_singleton.1 ((List.perm_ext_iff_of_nodup (hnodup.filter _) (by simp)).2 fun n => ?_)
    rw [← withKey, hmem, List.mem_singleton]
    exact ⟨fun ⟨hn, hsame⟩ => honly n hn (hsame.trans hkey.symm), fun heq => heq ▸ ⟨hname, hkey⟩⟩

theorem get_uniqueByKey_some (hnodup : names.Nodup) :
    (uniqueByKey names).get key = some (some name) ↔ OnlyWithKey names name ∧ windowsKey name.chars = key := by
  rw [← withKey_eq_singleton hnodup, get_uniqueByKey]
  cases withKey names key with
  | nil => simp
  | cons first rest =>
    cases rest with
    | nil => simp
    | cons second rest => simp

theorem renamedPair_eq_some {candidate : Option RelPath} :
    renamedPair records isListed (key, candidate) = some (new, old) ↔
      candidate = some new ∧ OnlyWithKey (records.entries.map Prod.fst) old ∧ windowsKey old.chars = key ∧
        records.get new = none ∧ isListed old = false ∧
        (records.get old).any (fun record => !record.hostWriteFailed) = true := by
  cases candidate with
  | none => simp [renamedPair]
  | some name =>
    have hrecorded (old : RelPath) : (uniqueByKey (records.entries.map Prod.fst)).get key = some (some old) ↔ _ :=
      get_uniqueByKey_some records.nodup
    rw [renamedPair]
    constructor
    · intro h
      cases hget : (uniqueByKey (records.entries.map Prod.fst)).get key with
      | none =>
        rw [hget] at h
        cases h
      | some recorded =>
        rw [hget] at h
        cases recorded with
        | none => cases h
        | some old' =>
          dsimp only at h
          by_cases hcond : records.get name = none ∧ isListed old' = false ∧
              (records.get old').any (fun record => !record.hostWriteFailed)
          · rw [if_pos hcond] at h
            cases h
            obtain ⟨hold, hkey⟩ := (hrecorded _).1 hget
            exact ⟨rfl, hold, hkey, hcond⟩
          · rw [if_neg hcond] at h
            cases h
    · rintro ⟨hname, hold, hkey, hcond⟩
      cases hname
      rw [(hrecorded old).2 ⟨hold, hkey⟩]
      exact if_pos hcond

theorem mem_renamedPairs (hlisted : listed.Nodup) :
    (new, old) ∈ renamedPairs listed records isListed ↔
      OnlyWithKey listed new ∧ OnlyWithKey (records.entries.map Prod.fst) old ∧
        windowsKey new.chars = windowsKey old.chars ∧ records.get new = none ∧ isListed old = false ∧
        (records.get old).any (fun record => !record.hostWriteFailed) = true := by
  rw [renamedPairs, List.mem_filterMap]
  constructor
  · rintro ⟨⟨key, candidate⟩, hentry, hpair⟩
    obtain ⟨rfl, hold, hkey, hcond⟩ := renamedPair_eq_some.1 hpair
    obtain ⟨hnew, hkey'⟩ := (get_uniqueByKey_some hlisted).1 (AssocMap.mem_iff_get.1 hentry)
    exact ⟨hnew, hold, hkey'.trans hkey.symm, hcond⟩
  · rintro ⟨hnew, hold, hkey, hcond⟩
    have hentry := AssocMap.mem_iff_get.2 ((get_uniqueByKey_some hlisted).2 ⟨hnew, rfl⟩)
    exact ⟨_, hentry, renamedPair_eq_some.2 ⟨rfl, hold, hkey.symm, hcond⟩⟩

theorem renamedPairs_nodup (hlisted : listed.Nodup) :
    ((renamedPairs listed records isListed).map fun pair => windowsKey pair.1.chars).Nodup := by
  rw [List.Nodup, List.pairwise_map, renamedPairs, List.pairwise_filterMap]
  have hkeys := (uniqueByKey listed).nodup
  rw [List.Nodup, List.pairwise_map] at hkeys
  have hkey {entry : List Char × Option RelPath} {pair : RelPath × RelPath}
    (hentry : entry ∈ (uniqueByKey listed).entries)
      (hpair : renamedPair records isListed entry = some pair) : windowsKey pair.1.chars = entry.1 := by
    obtain ⟨key, candidate⟩ := entry
    obtain ⟨rfl, -⟩ := renamedPair_eq_some.1 hpair
    exact ((get_uniqueByKey_some hlisted).1 (AssocMap.mem_iff_get.1 hentry)).2
  refine List.Pairwise.imp_of_mem (fun hentry hentry' hne pair hpair pair' hpair' hsame => hne ?_) hkeys
  rw [← hkey hentry hpair, ← hkey hentry' hpair', hsame]

end Pairs

/-! ## Moves -/

section Moves

variable {listed : List RelPath} {records : AssocMap RelPath FileRecord} {isListed : RelPath → Bool}

/-- A move of names: from the record of an unlisted name to a listed name of its key, both alone with it. -/
def Moves (listed : List RelPath) (records : AssocMap RelPath FileRecord) (isListed : RelPath → Bool)
    (move : RelPath → RelPath) : Prop :=
  ∀ old, move old ≠ old → OnlyWithKey listed (move old) ∧ OnlyWithKey (records.entries.map Prod.fst) old ∧
    windowsKey (move old).chars = windowsKey old.chars ∧ records.get (move old) = none ∧ isListed old = false

/-- The pairs, from old names to new ones. -/
def renames (listed : List RelPath) (records : AssocMap RelPath FileRecord) (isListed : RelPath → Bool) :
    List (RelPath × RelPath) :=
  (renamedPairs listed records isListed).map Prod.swap

theorem mem_renames (hlisted : listed.Nodup) {old new : RelPath} :
    (old, new) ∈ renames listed records isListed ↔
      OnlyWithKey listed new ∧ OnlyWithKey (records.entries.map Prod.fst) old ∧
        windowsKey new.chars = windowsKey old.chars ∧ records.get new = none ∧ isListed old = false ∧
        (records.get old).any (fun record => !record.hostWriteFailed) = true := by
  rw [← mem_renamedPairs hlisted, renames, List.mem_map]
  constructor
  · rintro ⟨⟨new', old'⟩, hpair, heq⟩
    cases heq
    exact hpair
  · exact fun hpair => ⟨(new, old), hpair, rfl⟩

theorem renames_moves (hlisted : listed.Nodup) :
    Moves listed records isListed (AssocMap.moved (renames listed records isListed)) := by
  intro old hmoved
  obtain ⟨hnew, hold, hkey, hfree, hunlisted, -⟩ := (mem_renames hlisted).1 (AssocMap.moved_mem hmoved)
  exact ⟨hnew, hold, hkey, hfree, hunlisted⟩

theorem renames_nodup (hlisted : listed.Nodup) : ((renames listed records isListed).map Prod.fst).Nodup ∧
    ((renames listed records isListed).map Prod.snd).Nodup := by
  have hkeys := @renamedPairs_nodup listed records isListed hlisted
  have hold : (renames listed records isListed).map (fun pair => windowsKey pair.1.chars) =
      (renamedPairs listed records isListed).map fun pair => windowsKey pair.1.chars := by
    rw [renames, List.map_map]
    refine List.map_congr_left fun pair hpair => ?_
    exact ((mem_renamedPairs hlisted).1 hpair).2.2.1.symm
  have hnew : (renames listed records isListed).map (fun pair => windowsKey pair.2.chars) =
      (renamedPairs listed records isListed).map fun pair => windowsKey pair.1.chars := by
    rw [renames, List.map_map]
    rfl
  constructor
  · refine List.Nodup.of_map (fun name => windowsKey name.chars) ?_
    rw [List.map_map]
    exact hold ▸ hkeys
  · refine List.Nodup.of_map (fun name => windowsKey name.chars) ?_
    rw [List.map_map]
    exact hnew ▸ hkeys

end Moves

namespace ShareSync

/-- The scanned names. -/
def scanned (s : ShareSync) : List RelPath := s.hostFilesScratch.entries.map Prod.fst

/-- The names of the listed files. -/
def listedFiles (s : ShareSync) : List RelPath := s.guestFileEntriesScratch.entries.map Prod.fst

/-- The renames of a scan, from record names to scanned names. -/
def hostRenames (s : ShareSync) : List (RelPath × RelPath) :=
  renames s.scanned s.records fun name => (s.hostFilesScratch.get name).isSome

/-- The renames of a listing, from listed names to record names. -/
def guestRenames (s : ShareSync) : List (RelPath × RelPath) :=
  renamedPairs s.listedFiles s.records fun name => name ∈ s.presentScratch

theorem mem_hostRenames {s : ShareSync} {old new : RelPath} :
    (old, new) ∈ s.hostRenames ↔ OnlyWithKey s.scanned new ∧ OnlyWithKey (s.records.entries.map Prod.fst) old ∧
      windowsKey new.chars = windowsKey old.chars ∧ s.records.get new = none ∧
      (s.hostFilesScratch.get old).isSome = false ∧
      (s.records.get old).any (fun record => !record.hostWriteFailed) = true :=
  mem_renames s.hostFilesScratch.nodup

theorem mem_guestRenames {s : ShareSync} {listed record : RelPath} :
    (listed, record) ∈ s.guestRenames ↔
      OnlyWithKey s.listedFiles listed ∧ OnlyWithKey (s.records.entries.map Prod.fst) record ∧
      windowsKey listed.chars = windowsKey record.chars ∧ s.records.get listed = none ∧
      decide (record ∈ s.presentScratch) = false ∧
      (s.records.get record).any (fun record => !record.hostWriteFailed) = true :=
  mem_renamedPairs s.guestFileEntriesScratch.nodup

theorem foldl_adoptPair (pairs : List (RelPath × RelPath)) (s : ShareSync) :
    ∃ pendingGuestMtime pendingHostChanged, pairs.foldl adoptPair s =
      { s with
        records := (pairs.map Prod.swap).foldl (fun m pair => m.rename pair.1 pair.2) s.records
        pendingGuestMtime
        pendingHostChanged } := by
  induction pairs generalizing s with
  | nil => exact ⟨_, _, rfl⟩
  | cons pair pairs ih =>
    obtain ⟨guest, host, hrest⟩ := ih (s.adoptPair pair)
    exact ⟨guest, host, hrest⟩

/-- Without a name to pair on one side there is nothing to move. -/
theorem adoptHostRenames_eq (s : ShareSync) : ∃ pendingGuestMtime pendingHostChanged, s.adoptHostRenames =
    { s with
      records := s.hostRenames.foldl (fun m pair => m.rename pair.1 pair.2) s.records
      pendingGuestMtime
      pendingHostChanged } := by
  unfold adoptHostRenames
  dsimp only
  by_cases hnone : (((s.hostFilesScratch.entries.map Prod.fst).any fun name => s.records.get name = none) = false ∨
      (s.records.entries.any fun record => s.hostFilesScratch.get record.1 = none) = false)
  · rw [if_pos hnone]
    have hempty : s.hostRenames = [] := by
      refine List.eq_nil_iff_forall_not_mem.2 fun pair hpair => ?_
      obtain ⟨hnew, hold, -, hfree, hunlisted, -⟩ := mem_hostRenames.1 hpair
      rcases hnone with hnone | hnone
      · have hrecorded := List.any_eq_false.1 hnone _ hnew.1
        simp [hfree] at hrecorded
      · obtain ⟨record, hrecord, heq⟩ := List.mem_map.1 hold.1
        have hscanned := List.any_eq_false.1 hnone _ hrecord
        rw [heq] at hscanned
        rw [Option.isSome_eq_false_iff, Option.isNone_iff_eq_none] at hunlisted
        simp [hunlisted] at hscanned
    rw [hempty]
    exact ⟨_, _, rfl⟩
  · rw [if_neg hnone]
    exact foldl_adoptPair _ s

theorem adoptHostRenames_perm (s : ShareSync) : s.adoptHostRenames.records.entries.Perm
    (s.records.entries.map fun record => (AssocMap.moved s.hostRenames record.1, record.2)) := by
  obtain ⟨guest, host, heq⟩ := s.adoptHostRenames_eq
  obtain ⟨hold, hnew⟩ := renames_nodup s.hostFilesScratch.nodup
  rw [heq]
  refine AssocMap.renames_perm s.records (fun pair hpair => ?_) hold hnew
  obtain ⟨-, -, -, hfree, -, hrecord⟩ := mem_hostRenames.1 hpair
  refine ⟨?_, hfree⟩
  cases hget : s.records.get pair.1 with
  | none =>
    rw [hget] at hrecord
    cases hrecord
  | some record => rfl

theorem hostRenames_moves (s : ShareSync) :
    Moves s.scanned s.records (fun name => (s.hostFilesScratch.get name).isSome) (AssocMap.moved s.hostRenames) :=
  renames_moves s.hostFilesScratch.nodup

theorem get_adoptHostRenames {s : ShareSync} {name : RelPath} {record : FileRecord} :
    s.adoptHostRenames.records.get name = some record ↔
      ∃ old, s.records.get old = some record ∧ AssocMap.moved s.hostRenames old = name := by
  rw [← AssocMap.mem_iff_get, s.adoptHostRenames_perm.mem_iff, List.mem_map]
  constructor
  · rintro ⟨⟨old, record'⟩, hmem, heq⟩
    cases heq
    exact ⟨old, AssocMap.mem_iff_get.1 hmem, rfl⟩
  · rintro ⟨old, hget, rfl⟩
    exact ⟨(old, record), AssocMap.mem_iff_get.2 hget, rfl⟩

theorem foldl_aliasPair (pairs : List (RelPath × RelPath)) (s : ShareSync) :
    pairs.foldl aliasPair s =
      { s with
        guestFileEntriesScratch := pairs.foldl (fun m pair => m.rename pair.1 pair.2) s.guestFileEntriesScratch
        presentScratch := pairs.foldl (fun names pair => insert pair.2 (names.erase pair.1)) s.presentScratch } := by
  induction pairs generalizing s with
  | nil => rfl
  | cons pair pairs ih => exact ih (s.aliasPair pair)

theorem aliasGuestRenames_eq (s : ShareSync) : s.aliasGuestRenames =
    { s with
      guestFileEntriesScratch :=
        s.guestRenames.foldl (fun m pair => m.rename pair.1 pair.2) s.guestFileEntriesScratch
      presentScratch :=
        s.guestRenames.foldl (fun names pair => insert pair.2 (names.erase pair.1)) s.presentScratch } := by
  unfold aliasGuestRenames
  dsimp only
  by_cases hnone : (((s.guestFileEntriesScratch.entries.map Prod.fst).any fun name => s.records.get name = none) =
    false ∨
      (s.records.entries.any fun record => record.1 ∉ s.presentScratch) = false)
  · rw [if_pos hnone]
    have hempty : s.guestRenames = [] := by
      refine List.eq_nil_iff_forall_not_mem.2 fun pair hpair => ?_
      obtain ⟨hnew, hold, -, hfree, hunlisted, -⟩ := mem_guestRenames.1 hpair
      rcases hnone with hnone | hnone
      · have hrecorded := List.any_eq_false.1 hnone _ hnew.1
        simp [hfree] at hrecorded
      · obtain ⟨record, hrecord, heq⟩ := List.mem_map.1 hold.1
        have hlisted := List.any_eq_false.1 hnone _ hrecord
        rw [heq] at hlisted
        rw [decide_eq_false_iff_not] at hunlisted
        simp [hunlisted] at hlisted
    rw [hempty]
    rfl
  · rw [if_neg hnone]
    exact foldl_aliasPair _ s

/-- Every listed file is a listed name. -/
def ListedPresent (s : ShareSync) : Prop :=
  ∀ name, (s.guestFileEntriesScratch.get name).isSome → name ∈ s.presentScratch

theorem guestRenames_nodup (s : ShareSync) :
    (s.guestRenames.map Prod.fst).Nodup ∧ (s.guestRenames.map Prod.snd).Nodup := by
  have hlisted := s.guestFileEntriesScratch.nodup
  obtain ⟨hold, hnew⟩ := @renames_nodup _ s.records (fun name => name ∈ s.presentScratch) hlisted
  rw [renames, List.map_map] at hold hnew
  exact ⟨hnew, hold⟩

theorem aliasGuestRenames_perm {s : ShareSync} (hlisted : s.ListedPresent) :
    s.aliasGuestRenames.guestFileEntriesScratch.entries.Perm
      (s.guestFileEntriesScratch.entries.map fun file => (AssocMap.moved s.guestRenames file.1, file.2)) := by
  obtain ⟨hold, hnew⟩ := s.guestRenames_nodup
  rw [s.aliasGuestRenames_eq]
  refine AssocMap.renames_perm s.guestFileEntriesScratch (fun pair hpair => ?_) hold hnew
  obtain ⟨hname, -, -, -, hunlisted, -⟩ := mem_guestRenames.1 hpair
  constructor
  · obtain ⟨file, hfile, heq⟩ := List.mem_map.1 hname.1
    rw [← heq, AssocMap.mem_iff_get.1 hfile]
    rfl
  · rw [← Option.not_isSome_iff_eq_none]
    intro hsome
    have hpresent := hlisted _ hsome
    simp [hpresent] at hunlisted

theorem get_aliasGuestRenames {s : ShareSync} (hlisted : s.ListedPresent) {name : RelPath} {file : GuestFileStat} :
    s.aliasGuestRenames.guestFileEntriesScratch.get name = some file ↔
      ∃ listed, s.guestFileEntriesScratch.get listed = some file ∧ AssocMap.moved s.guestRenames listed = name := by
  rw [← AssocMap.mem_iff_get, (aliasGuestRenames_perm hlisted).mem_iff, List.mem_map]
  constructor
  · rintro ⟨⟨listed, file'⟩, hmem, heq⟩
    cases heq
    exact ⟨listed, AssocMap.mem_iff_get.1 hmem, rfl⟩
  · rintro ⟨listed, hget, rfl⟩
    exact ⟨(listed, file), AssocMap.mem_iff_get.2 hget, rfl⟩

/-- Names that pairs do not take stay, and the names that pairs give are there. -/
theorem mem_present_foldl {pairs : List (RelPath × RelPath)} (names : Finset RelPath)
    (hapart : ∀ pair ∈ pairs, ∀ pair' ∈ pairs, pair.2 ≠ pair'.1) (name : RelPath) :
    name ∈ pairs.foldl (fun names pair => insert pair.2 (names.erase pair.1)) names ↔
      (name ∈ names ∧ name ∉ pairs.map Prod.fst) ∨ name ∈ pairs.map Prod.snd := by
  induction pairs generalizing names with
  | nil => simp
  | cons pair pairs ih =>
    rw [List.foldl_cons, ih _ fun p hp p' hp' => hapart p (by simp [hp]) p' (by simp [hp'])]
    simp only [Finset.mem_insert, Finset.mem_erase, List.map_cons, List.mem_cons]
    constructor
    · rintro (⟨rfl | ⟨hne, hname⟩, hrest⟩ | hnew)
      · exact .inr (.inl rfl)
      · exact .inl ⟨hname, by simp [hne, hrest]⟩
      · exact .inr (.inr hnew)
    · rintro (⟨hname, hrest⟩ | rfl | hnew)
      · rw [not_or] at hrest
        exact .inl ⟨.inr ⟨hrest.1, hname⟩, hrest.2⟩
      · refine .inl ⟨.inl rfl, fun hmem => ?_⟩
        obtain ⟨p, hp, heq⟩ := List.mem_map.1 hmem
        exact hapart pair (by simp) p (by simp [hp]) heq.symm
      · exact .inr hnew

end ShareSync

end BridgeVm.Share
