import BridgeVm.Share.Names
import Mathlib.Data.Finset.Image
import Mathlib.Data.List.MinMax
import Mathlib.Data.Char
import Mathlib.Data.List.Lex

/-!
# The share sync engine (`share_sync.rs`, `share_sync_host.rs`, `share_win_alias.rs`, `share_win_names.rs`)

The engine keeps a record for each file it has synced, and plans fetches and deletions from scans of the host folder and
listings of the guest's. Host names that Windows cannot keep apart are held, and renames of case only move records.
-/

namespace BridgeVm.Share

open Lib

/-- A guest modification time: the bytes of a string. -/
abbrev Mtime := List UInt8

structure LsEntry where
  name : RelPath
  size : Nat
  isDir : Bool
  mtime : Mtime
deriving DecidableEq

structure HostFile where
  name : RelPath
  size : Nat
  mtimeMs : Nat
deriving DecidableEq

inductive SkipReason
  | tooLarge (size : Nat)
  | windowsAlias (names : List RelPath)
deriving DecidableEq

inductive SyncAction
  | get (name : RelPath)
  | deleteGuest (name : RelPath)
  | deleteHost (name : RelPath)
  | skip (name : RelPath) (reason : SkipReason)
deriving DecidableEq

inductive GuestFileOutcome
  | alreadySynced
  | writeHost (bytes : List UInt8)
  | skip (reason : SkipReason)

structure PushGuest where
  bytes : List UInt8
  hash : UInt64

structure FileRecord where
  size : Nat
  hash : UInt64
  hostMtimeMs : Option Nat
  guestMtime : Option Mtime
  awaitingGuestStamp : Bool
  hostWriteFailed : Bool
  putUnconfirmed : Bool
deriving DecidableEq

structure HostFileStat where
  size : Nat
  mtimeMs : Nat
deriving DecidableEq

structure GuestFileStat where
  size : Nat
  mtime : Mtime
deriving DecidableEq

/-- Each refused version: its size, the hash of its time, and its place in the order of refusals. -/
structure RefusedWrites where
  versions : AssocMap RelPath (Nat × UInt64 × Nat)
  refused : Nat

/-- Sets and maps are keyed by names, or by their keys component by component. -/
structure ShareSync where
  records : AssocMap RelPath FileRecord
  maxBytes : Nat
  guestSkipSeen : Finset (RelPath × Mtime)
  pendingGuestMtime : AssocMap RelPath Mtime
  pendingHostChanged : Finset RelPath
  presentScratch : Finset RelPath
  guestFileEntriesScratch : AssocMap RelPath GuestFileStat
  hostFilesScratch : AssocMap RelPath HostFileStat
  putRejected : AssocMap RelPath HostFileStat
  hostUnseen : Finset (List Char)
  hostAliased : Finset (List Char)
  fetchedOverCap : AssocMap RelPath Mtime
  refusedWrites : RefusedWrites

/-- `fnv1a64`. -/
def fnv1a64 (bytes : List UInt8) : UInt64 :=
  bytes.foldl (fun hash byte => (hash ^^^ byte.toUInt64) * 0x100000001b3) 0xcbf29ce484222325

/-- `MAX_REFUSED_WRITES`. -/
def maxRefusedWrites : Nat := 1024

def RefusedWrites.remember (w : RefusedWrites) (name : RelPath) (size : Nat) (mtime : UInt64) : RefusedWrites :=
  let versions :=
    if maxRefusedWrites ≤ w.versions.entries.length ∧ w.versions.get name = none then
      match w.versions.entries.argmin (fun version => version.2.2.2) with
      | some oldest => w.versions.remove oldest.1
      | none => w.versions
    else w.versions
  ⟨versions.insert name (size, mtime, w.refused + 1), w.refused + 1⟩

/-! ## Renames -/

/-- `unique_by_key`: each key, with its name when it is the only one. -/
def uniqueByKey (names : List RelPath) : AssocMap (List Char) (Option RelPath) :=
  names.foldl (fun map name =>
    match map.get (windowsKey name.chars) with
    | some _ => map.insert (windowsKey name.chars) none
    | none => map.insert (windowsKey name.chars) (some name)) .empty

/-- A listed name without a record, that is alone with its key, and the record of the one unlisted name with it. -/
def renamedPair (records : AssocMap RelPath FileRecord) (isListed : RelPath → Bool) :
    List Char × Option RelPath → Option (RelPath × RelPath)
  | (_, none) => none
  | (key, some name) =>
    match (uniqueByKey (records.entries.map Prod.fst)).get key with
    | some (some old) =>
      if records.get name = none ∧ isListed old = false ∧
          (records.get old).any (fun record => !record.hostWriteFailed) then
        some (name, old)
      else none
    | _ => none

def renamedPairs (listed : List RelPath) (records : AssocMap RelPath FileRecord) (isListed : RelPath → Bool) :
    List (RelPath × RelPath) :=
  (uniqueByKey listed).entries.filterMap (renamedPair records isListed)

namespace ShareSync

def new (maxKb : Nat) : ShareSync where
  records := .empty
  maxBytes := min (maxKb * 1024) (2 ^ 64 - 1)
  guestSkipSeen := ∅
  pendingGuestMtime := .empty
  pendingHostChanged := ∅
  presentScratch := ∅
  guestFileEntriesScratch := .empty
  hostFilesScratch := .empty
  putRejected := .empty
  hostUnseen := ∅
  hostAliased := ∅
  fetchedOverCap := .empty
  refusedWrites := ⟨.empty, 0⟩

/-- The step of `adopt_host_renames` for a pair. -/
def adoptPair (s : ShareSync) (pair : RelPath × RelPath) : ShareSync :=
  let (new, old) := pair
  { s with
    records := s.records.rename old new
    pendingGuestMtime := s.pendingGuestMtime.rename old new
    pendingHostChanged :=
      if old ∈ s.pendingHostChanged then insert new (s.pendingHostChanged.erase old) else s.pendingHostChanged }

def adoptHostRenames (s : ShareSync) : ShareSync :=
  let host := s.hostFilesScratch.entries.map Prod.fst
  if (host.any fun name => s.records.get name = none) = false ∨
      (s.records.entries.any fun record => s.hostFilesScratch.get record.1 = none) = false then s
  else
    (renamedPairs host s.records fun name => (s.hostFilesScratch.get name).isSome).foldl adoptPair s

/-- The step of `alias_guest_renames` for a pair. -/
def aliasPair (s : ShareSync) (pair : RelPath × RelPath) : ShareSync :=
  let (name, record) := pair
  { s with
    guestFileEntriesScratch := s.guestFileEntriesScratch.rename name record
    presentScratch := insert record (s.presentScratch.erase name) }

def aliasGuestRenames (s : ShareSync) : ShareSync :=
  let listed := s.guestFileEntriesScratch.entries.map Prod.fst
  if (listed.any fun name => s.records.get name = none) = false ∨
      (s.records.entries.any fun record => record.1 ∉ s.presentScratch) = false then s
  else
    (renamedPairs listed s.records fun name => name ∈ s.presentScratch).foldl aliasPair s

/-! ## Holds -/

/-- Replace the unseen names with those of the latest scan. -/
def setHostUnseen (s : ShareSync) (names : List (List Char)) : ShareSync :=
  { s with hostUnseen := (names.map unseenKey).toFinset }

/-- The name is unseen or below an unseen folder: its key up to a slash is. -/
def hostUnseenCovers (s : ShareSync) (name : RelPath) : Bool :=
  let key := unseenKey name.chars
  key ∈ s.hostUnseen ∨
    (List.range key.length).any fun i => key[i]? = some '/' ∧ key.take i ∈ s.hostUnseen

def hostHeld (s : ShareSync) (name : RelPath) : Bool :=
  s.hostUnseenCovers name || unseenKey name.chars ∈ s.hostAliased

/-- The scanned names by key, component by component. -/
def aliasGroups (names : List RelPath) : AssocMap (List Char) (List RelPath) :=
  names.foldl (fun groups name =>
    groups.insert (unseenKey name.chars) ((groups.get (unseenKey name.chars)).getD [] ++ [name])) .empty

/-- A group of names is held, unless it is one name that Windows can keep. -/
def heldGroup (names : List RelPath) : Bool :=
  match names with
  | [name] => folderTrimmedByWindows name.chars
  | _ => true

def sortNames (names : List RelPath) : List RelPath :=
  names.mergeSort fun a b => decide (a.chars ≤ b.chars)

/-- The keys to hold, with their names. -/
def heldGroups (s : ShareSync) : List (List Char × List RelPath) :=
  (aliasGroups (s.hostFilesScratch.entries.map Prod.fst)).entries.filter fun group => heldGroup group.2

/-- Drop held names from the scan. -/
def dropHeld (s : ShareSync) : ShareSync :=
  { s with
    hostFilesScratch := s.hostFilesScratch.retain fun file => file.1 ∉ s.heldGroups.flatMap Prod.snd
    hostAliased := (s.heldGroups.map Prod.fst).toFinset }

/-- `hold_windows_aliases`: a key is reported when it becomes held, and renames are matched among the other names. -/
def holdWindowsAliases (s : ShareSync) : ShareSync × List SyncAction :=
  let actions := s.heldGroups.filterMap fun (key, names) =>
    if key ∈ s.hostAliased then none
    else (sortNames names).head?.map fun name => SyncAction.skip name (.windowsAlias (sortNames names))
  (s.dropHeld.adoptHostRenames, actions)

/-- A refused PUT is forgotten once its host file changes, but not while its name is held. -/
def retainPutRejected (s : ShareSync) : ShareSync :=
  { s with putRejected := s.putRejected.retain fun (name, stat) =>
      s.hostFilesScratch.get name = some stat ∨ s.hostHeld name = true }

/-! ## Host scans -/

/-- A scanned file that the records do not have as it is. -/
def hostChanged (s : ShareSync) (name : RelPath) (file : HostFileStat) : Bool :=
  match s.records.get name with
  | none => true
  | some record =>
    !record.hostWriteFailed &&
      (record.size ≠ file.size || record.hostMtimeMs ≠ some file.mtimeMs || record.putUnconfirmed)

/-- The files of a scan. -/
def readScan (files : List HostFile) : AssocMap RelPath HostFileStat :=
  (files.filter fun file => file.name.chars ≠ []).foldl
    (fun scratch file => scratch.insert file.name ⟨file.size, file.mtimeMs⟩) .empty

def withScan (s : ShareSync) (files : List HostFile) : ShareSync := { s with hostFilesScratch := readScan files }

def changedFiles (s : ShareSync) : List (RelPath × HostFileStat) :=
  s.hostFilesScratch.entries.filter fun (name, file) => s.hostChanged name file

/-- The changed files that the guest has not refused. -/
def scanGets (s : ShareSync) : List SyncAction :=
  s.changedFiles.filterMap fun (name, file) =>
    if s.putRejected.get name = some file then none else some (SyncAction.get name)

/-- The records whose file has left the scan. -/
def scanDeletes (s : ShareSync) : List SyncAction :=
  s.records.entries.filterMap fun (name, record) =>
    if (s.hostFilesScratch.get name).isSome ∨ s.hostHeld name = true ∨ record.hostWriteFailed ∨
        (s.pendingGuestMtime.get name).isSome then none
    else some (SyncAction.deleteGuest name)

/-- `on_host_scan`, of names that are normalized. -/
def onHostScan (s : ShareSync) (files : List HostFile) : ShareSync × List SyncAction :=
  let (s, skips) := (s.withScan files).holdWindowsAliases
  let gets := s.scanGets
  let changed := (s.changedFiles.map Prod.fst).toFinset
  let s := retainPutRejected { s with pendingHostChanged := s.pendingHostChanged ∪ changed }
  (s, skips ++ gets ++ s.scanDeletes)

/-- `on_host_file`: what to push to the guest. -/
def onHostFile (s : ShareSync) (name : List Char) (bytes : List UInt8) (mtimeMs : Nat) :
    ShareSync × Option PushGuest :=
  let name := normalizeRel name
  if (s.records.get name).any (fun record => record.hostWriteFailed) then (s, none)
  else
    let s :=
      { s with
        pendingHostChanged := s.pendingHostChanged.erase name
        pendingGuestMtime := s.pendingGuestMtime.remove name }
    let hash := fnv1a64 bytes
    match s.records.get name with
    | some record =>
      if record.hash = hash ∧ record.putUnconfirmed = false then
        ({ s with records := s.records.modify name fun record =>
            { record with size := bytes.length, hostMtimeMs := some mtimeMs } }, none)
      else
        ({ s with records := s.records.modify name fun record => { record with putUnconfirmed := true } },
          some ⟨bytes, hash⟩)
    | none => (s, some ⟨bytes, hash⟩)

/-- `on_put_ok`. -/
def onPutOk (s : ShareSync) (name : List Char) (size : Nat) (hash : UInt64) : ShareSync :=
  let name := normalizeRel name
  { s with
    pendingHostChanged := s.pendingHostChanged.erase name
    pendingGuestMtime := s.pendingGuestMtime.remove name
    putRejected := s.putRejected.remove name
    records := s.records.insert name
      { size, hash, hostMtimeMs := none, guestMtime := none, awaitingGuestStamp := true, hostWriteFailed := false
        putUnconfirmed := false } }

/-- `on_put_rejected`. -/
def onPutRejected (s : ShareSync) (name : List Char) : ShareSync :=
  let name := normalizeRel name
  match s.hostFilesScratch.get name with
  | some stat => { s with putRejected := s.putRejected.insert name stat }
  | none => s

/-! ## Guest listings -/

/-- `pull_held_keys`: the keys of names whose host version is not on the guest yet. -/
def pullHeldKeys (s : ShareSync) : Finset (List Char) :=
  (s.pendingHostChanged.image fun name => windowsKey name.chars) ∪
    (s.putRejected.entries.map fun rejected => windowsKey rejected.1.chars).toFinset ∪
    ((s.records.entries.filter fun record => record.2.putUnconfirmed).map fun record =>
      windowsKey record.1.chars).toFinset

/-- `drop_fetched_over_cap`. -/
def dropFetchedOverCap (s : ShareSync) : ShareSync :=
  let fetched := s.fetchedOverCap.retain fun (name, mtime) =>
    (s.guestFileEntriesScratch.get name).any fun entry => entry.mtime = mtime
  { s with
    fetchedOverCap := fetched
    guestFileEntriesScratch := s.guestFileEntriesScratch.retain fun entry => (fetched.get entry.1).isNone }

/-- `drop_refused_writes`. -/
def dropRefusedWrites (s : ShareSync) : ShareSync :=
  let versions := s.refusedWrites.versions.retain fun (name, size, mtime, _) =>
    (s.guestFileEntriesScratch.get name).any fun entry => entry.size = size ∧ fnv1a64 entry.mtime = mtime
  { s with
    refusedWrites := { s.refusedWrites with versions }
    guestFileEntriesScratch := s.guestFileEntriesScratch.retain fun entry => (versions.get entry.1).isNone }

/-- `retain_guest_skips`. -/
def retainGuestSkips (s : ShareSync) : ShareSync :=
  { s with guestSkipSeen := s.guestSkipSeen.filter fun (name, mtime) =>
      (s.guestFileEntriesScratch.get name).any fun entry => s.maxBytes < entry.size ∧ entry.mtime = mtime }

/-- What a listed file of a fitting size plans: a PUT's landing is stamped, another version is noted and fetched. -/
def listVersion (s : ShareSync) (name : RelPath) (entry : GuestFileStat) : ShareSync × List SyncAction :=
  let (s, changed) :=
    match s.records.get name with
    | some record =>
      if record.awaitingGuestStamp ∧ entry.size = record.size then
        ({ s with records := s.records.modify name fun record =>
            { record with guestMtime := some entry.mtime, awaitingGuestStamp := false } }, false)
      else (s, decide (record.guestMtime ≠ some entry.mtime))
    | none => (s, true)
  if changed then
    ({ s with pendingGuestMtime := s.pendingGuestMtime.insert name entry.mtime },
      if s.hostHeld name then [] else [.get name])
  else (s, [])

/-- The step of a listing for a file. -/
def listFile (held : Finset (List Char)) (s : ShareSync) (name : RelPath) (entry : GuestFileStat) :
    ShareSync × List SyncAction :=
  if s.maxBytes < entry.size then
    if (name, entry.mtime) ∈ s.guestSkipSeen then (s, [])
    else
      ({ s with guestSkipSeen := insert (name, entry.mtime) s.guestSkipSeen }, [.skip name (.tooLarge entry.size)])
  else if windowsKey name.chars ∈ held then (s, [])
  else s.listVersion name entry

/-- The files of a listing in turn. -/
def listFiles (held : Finset (List Char)) (s : ShareSync) : List (RelPath × GuestFileStat) →
    ShareSync × List SyncAction
  | [] => (s, [])
  | (name, entry) :: files =>
    let (s, actions) := s.listFile held name entry
    let (s, more) := s.listFiles held files
    (s, actions ++ more)

/-- The entries of a listing, and the files among them. -/
def readListing (s : ShareSync) (entries : List LsEntry) : ShareSync :=
  let entries := entries.filter fun entry => entry.name.chars ≠ []
  { s with
    presentScratch := (entries.map LsEntry.name).toFinset
    guestFileEntriesScratch := (entries.filter fun entry => !entry.isDir).foldl
      (fun scratch entry => scratch.insert entry.name ⟨entry.size, entry.mtime⟩) .empty }

/-- The records whose file has left the listing. -/
def listDeletes (s : ShareSync) : List SyncAction :=
  s.records.entries.filterMap fun (name, record) =>
    if name ∈ s.presentScratch ∨ record.hostWriteFailed ∨ name ∈ s.pendingHostChanged ∨
      s.hostHeld name = true then none
    else some (SyncAction.deleteHost name)

/-- `on_guest_listing`, of names that are normalized. -/
def onGuestListing (s : ShareSync) (entries : List LsEntry) : ShareSync × List SyncAction :=
  let s := (s.readListing entries).aliasGuestRenames
  let held := s.pullHeldKeys
  let s := s.dropFetchedOverCap.dropRefusedWrites
  let (s, actions) := s.listFiles held s.guestFileEntriesScratch.entries
  let s := s.retainGuestSkips
  (s, actions ++ s.listDeletes)

/-- `refuse_over_cap`. -/
def refuseOverCap (s : ShareSync) (name : RelPath) (size : Nat) (mtime : Option Mtime) :
    ShareSync × GuestFileOutcome :=
  let (s, mtime) :=
    match mtime with
    | some mtime => (s, some mtime)
    | none => ({ s with pendingGuestMtime := s.pendingGuestMtime.remove name }, s.pendingGuestMtime.get name)
  let s :=
    match mtime with
    | some mtime => { s with fetchedOverCap := s.fetchedOverCap.insert name mtime }
    | none => s
  (s, .skip (.tooLarge size))

/-- `on_guest_file`. -/
def onGuestFile (s : ShareSync) (name : List Char) (bytes : List UInt8) (mtime : Option Mtime) :
    ShareSync × GuestFileOutcome :=
  let name := normalizeRel name
  if s.maxBytes < bytes.length then s.refuseOverCap name bytes.length mtime
  else
    let hash := fnv1a64 bytes
    let (s, guestMtime) :=
      match mtime with
      | some mtime => (s, some mtime)
      | none => ({ s with pendingGuestMtime := s.pendingGuestMtime.remove name }, s.pendingGuestMtime.get name)
    let s := { s with pendingHostChanged := s.pendingHostChanged.erase name }
    if (s.records.get name).any (fun record => !record.hostWriteFailed && record.hash = hash) then
      ({ s with records := s.records.modify name fun record =>
          { record with size := bytes.length, guestMtime, awaitingGuestStamp := false } }, .alreadySynced)
    else
      let record : FileRecord :=
        { size := bytes.length, hash, hostMtimeMs := none, guestMtime, awaitingGuestStamp := false
          hostWriteFailed := true, putUnconfirmed := false }
      ({ s with records := s.records.insert name record }, .writeHost bytes)

/-- `on_host_write_succeeded`. -/
def onHostWriteSucceeded (s : ShareSync) (name : List Char) (mtimeMs : Option Nat) : ShareSync :=
  { s with records := s.records.modify (normalizeRel name) fun record =>
      { record with hostWriteFailed := false, hostMtimeMs := mtimeMs } }

/-- A file that one side has deleted. -/
def forgetFile (s : ShareSync) (name : RelPath) : ShareSync :=
  { s with
    records := s.records.remove name
    pendingHostChanged := s.pendingHostChanged.erase name
    pendingGuestMtime := s.pendingGuestMtime.remove name }

def onGuestDeleted (s : ShareSync) (name : List Char) : ShareSync := s.forgetFile (normalizeRel name)

def onHostDeleted (s : ShareSync) (name : List Char) : ShareSync := s.forgetFile (normalizeRel name)

/-! ## Failed writes -/

/-- `forget_absent_failed`. -/
def forgetAbsentFailed (s : ShareSync) (isAbsent : RelPath → Bool) : ShareSync :=
  let records := s.records.retain fun (name, record) =>
    !(record.hostWriteFailed && name ∉ s.presentScratch && isAbsent name)
  { s with
    records
    pendingGuestMtime := s.pendingGuestMtime.retain fun pending => pending.1 ∈ s.presentScratch
    pendingHostChanged := s.pendingHostChanged.filter fun name => (records.get name).isSome }

/-- `on_host_write_failed`: true at the limit of failed destinations. -/
def onHostWriteFailed (s : ShareSync) (name : List Char) : ShareSync × Bool :=
  let name := normalizeRel name
  let s :=
    { s with
      pendingHostChanged := s.pendingHostChanged.erase name
      records := s.records.modify name fun record => { record with hostWriteFailed := true, guestMtime := none } }
  let failed := s.records.entries.filter fun record => record.2.hostWriteFailed
  (s, 4096 ≤ failed.length ∨
    4 * 1024 * 1024 ≤ (failed.map fun record => (record.1.chars.map Char.utf8Size).sum).sum)

/-- `on_host_write_error`. -/
def onHostWriteError (s : ShareSync) (name : List Char) (persistent : Bool) : ShareSync × Bool :=
  let key := normalizeRel name
  let refused := (s.records.get key).bind fun record => record.guestMtime.map fun mtime => (record.size, fnv1a64 mtime)
  match refused with
  | some (size, mtime) =>
    if persistent then
      { s with refusedWrites := s.refusedWrites.remember key size mtime }.onHostWriteFailed name
    else s.onHostWriteFailed name
  | none => s.onHostWriteFailed name

end ShareSync

/-! ## Runs -/

/-- A call of the engine. -/
inductive Call
  | hostScan (files : List HostFile)
  | guestListing (entries : List LsEntry)
  | setHostUnseen (names : List (List Char))
  | hostFile (name : List Char) (bytes : List UInt8) (mtimeMs : Nat)
  | putOk (name : List Char) (size : Nat) (hash : UInt64)
  | putRejected (name : List Char)
  | guestFile (name : List Char) (bytes : List UInt8) (mtime : Option Mtime)
  | hostWriteSucceeded (name : List Char) (mtimeMs : Option Nat)
  | hostWriteError (name : List Char) (persistent : Bool)
  | guestDeleted (name : List Char)
  | hostDeleted (name : List Char)
  | forgetAbsentFailed (isAbsent : RelPath → Bool)

/-- The state after a call, and what the call plans. -/
def ShareSync.call (s : ShareSync) : Call → ShareSync × List SyncAction
  | .hostScan files => s.onHostScan files
  | .guestListing entries => s.onGuestListing entries
  | .setHostUnseen names => (s.setHostUnseen names, [])
  | .hostFile name bytes mtimeMs => ((s.onHostFile name bytes mtimeMs).1, [])
  | .putOk name size hash => (s.onPutOk name size hash, [])
  | .putRejected name => (s.onPutRejected name, [])
  | .guestFile name bytes mtime => ((s.onGuestFile name bytes mtime).1, [])
  | .hostWriteSucceeded name mtimeMs => (s.onHostWriteSucceeded name mtimeMs, [])
  | .hostWriteError name persistent => ((s.onHostWriteError name persistent).1, [])
  | .guestDeleted name => (s.onGuestDeleted name, [])
  | .hostDeleted name => (s.onHostDeleted name, [])
  | .forgetAbsentFailed isAbsent => (s.forgetAbsentFailed isAbsent, [])

/-- The state after calls, and what they plan. -/
def ShareSync.run (s : ShareSync) : List Call → ShareSync × List SyncAction
  | [] => (s, [])
  | c :: calls =>
    let (s, actions) := s.call c
    let (s, more) := s.run calls
    (s, actions ++ more)

end BridgeVm.Share
