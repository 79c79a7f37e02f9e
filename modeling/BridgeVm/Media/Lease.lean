import BridgeVm.Lib.Text
import BridgeVm.Lib.Transition
import Mathlib.Data.Char
import Mathlib.Data.List.Lex
import Mathlib.Logic.Function.Basic

/-!
# Media leases (`media_lease.rs`, `media_lease_keys.rs`, `media_lease_lock.rs`, `media_lease_pin.rs`,
`media_lease_update.rs`)

A lease owns media files for its process: for the canonical path of each, and for its inode when there is one, it holds
an exclusive `flock` on a lock file of a fixed directory. The owners of one user run side by side, and each step here is
one system call of one of them: the next lock of a call, the next unlock, the next close of a process that died.
Descriptors that a `fork` or `dup` copied keep a description open after its owner's own is closed.
-/

namespace BridgeVm.Media

open Lib

/-- The hexadecimal text of a digest, the name of a lock file. -/
abbrev Key := List Char

/-- An open file description. -/
abbrev Desc := Nat

/-- `BTreeSet<String>`. -/
abbrev KeySet := Std.TreeSet Key

/-- `BTreeMap<String, File>`. -/
abbrev Files := Std.TreeMap Key Desc

/-! ## Keys of a path -/

inductive IoError
  | notFound
  | wouldBlock
  | other (message : String)
  | os (code : Nat)
deriving DecidableEq

inductive Component
  | rootDir
  | curDir
  | parentDir
  | normal (name : List UInt8)
deriving DecidableEq

abbrev Path := List Component

namespace Path

def fileName (path : Path) : Option (List UInt8) :=
  match path.getLast? with
  | some (.normal name) => some name
  | _ => none

def parent (path : Path) : Option Path :=
  match path.getLast? with
  | some (.normal _) | some .curDir | some .parentDir => some path.dropLast
  | _ => none

end Path

structure Metadata where
  isFile : Bool
  dev : Nat
  ino : Nat
deriving DecidableEq

/-- What the file system answers while the keys of one path are read: canonical paths are bytes. -/
structure FsView where
  canonicalize : Path → Except IoError (List UInt8)
  metadata : List UInt8 → Except IoError Metadata

/-- `PathBuf::join` of a single name. -/
def join (path name : List UInt8) : List UInt8 :=
  if path = [] ∨ path.getLast? = some 47 then path ++ name else path ++ 47 :: name

/-- The canonical path of a file that exists, or of the directory that is to hold it. -/
def canonicalPath (view : FsView) (path : Path) : Except IoError (List UInt8) :=
  match view.canonicalize path with
  | .ok canonical => .ok canonical
  | .error .notFound =>
    match path.fileName with
    | none => .error (.other "media path has no name")
    | some name => do
      let directory ← view.canonicalize ((path.parent.filter fun p => p ≠ []).getD [.curDir])
      return join directory name
  | .error e => .error e

def pathBytes (canonical : List UInt8) : List UInt8 := utf8 "path:".toList ++ canonical

/-- `format!("inode:{}:{}", metadata.dev(), metadata.ino())`. -/
def inodeBytes (metadata : Metadata) : List UInt8 :=
  utf8 ("inode:".toList ++ Nat.toDigits 10 metadata.dev ++ ':' :: Nat.toDigits 10 metadata.ino)

/-- `resource_keys`; `digestKey` is the hexadecimal text of the SHA-256 digest. -/
def resourceKeys (digestKey : List UInt8 → Key) (view : FsView) (path : Path) : Except IoError (List Key) := do
  let canonical ← canonicalPath view path
  let key := digestKey (pathBytes canonical)
  match view.metadata canonical with
  | .ok metadata =>
    if metadata.isFile then .ok [key, digestKey (inodeBytes metadata)]
    else .error (.other "media is not a regular file")
  | .error .notFound => .ok [key]
  | .error e => .error e

/-- The keys of the paths a call names, each read when its turn comes. -/
def requestedKeys (digestKey : List UInt8 → Key) : List (FsView × Path) → KeySet → Except IoError KeySet
  | [], keys => .ok keys
  | (view, path) :: reads, keys => do
    let more ← resourceKeys digestKey view path
    requestedKeys digestKey reads (keys.insertMany more)

/-! ## The locks of the kernel -/

structure Kernel where
  /-- The description that has a lock file locked. -/
  locked : Key → Option Desc
  /-- The process that has the `File` of a description open. -/
  owner : Desc → Option Nat
  /-- Descriptors of a description that a `fork` or `dup` made. -/
  copies : Desc → Nat
  /-- The description the next `open` makes. -/
  next : Desc

namespace Kernel

def boot : Kernel := { locked := fun _ => none, owner := fun _ => none, copies := fun _ => 0, next := 0 }

/-- `open` and `flock(LOCK_EX | LOCK_NB)` of a lock file, closed again when it is locked already. -/
def lockKey (kernel : Kernel) (o : Nat) (key : Key) : Kernel × Option Desc :=
  match kernel.locked key with
  | none =>
    ({ kernel with
        locked := Function.update kernel.locked key (some kernel.next)
        owner := Function.update kernel.owner kernel.next (some o)
        next := kernel.next + 1 }, some kernel.next)
  | some _ => ({ kernel with next := kernel.next + 1 }, none)

/-- The locks of a description end. -/
def release (kernel : Kernel) (d : Desc) : Kernel :=
  { kernel with locked := fun key => if kernel.locked key = some d then none else kernel.locked key }

/-- `close` of a description's own `File`: the last descriptor takes the lock with it. -/
def close (kernel : Kernel) (d : Desc) : Kernel :=
  let closed := { kernel with owner := Function.update kernel.owner d none }
  if kernel.copies d = 0 then closed.release d else closed

/-- `flock(LOCK_UN)`, which copies of the description do not delay, and `close`. -/
def unlock (kernel : Kernel) (d : Desc) : Kernel := (kernel.release d).close d

/-- The copies that a child process inherits. -/
def fork (kernel : Kernel) (descs : List Desc) : Kernel :=
  { kernel with copies := fun d => kernel.copies d + if d ∈ descs then 1 else 0 }

/-- One more copy of a description that has copies. -/
def dup (kernel : Kernel) (d : Desc) : Option Kernel :=
  if kernel.copies d = 0 then none
    else some { kernel with copies := Function.update kernel.copies d (kernel.copies d + 1) }

/-- `close` of a copy. -/
def closeCopy (kernel : Kernel) (d : Desc) : Option Kernel :=
  if kernel.copies d = 0 then none
  else
    let closed := { kernel with copies := Function.update kernel.copies d (kernel.copies d - 1) }
    some (if kernel.owner d = none ∧ kernel.copies d = 1 then closed.release d else closed)

end Kernel

/-! ## Leases and the calls that change them -/

structure MediaLease where
  files : Files
  pinned : KeySet

def MediaLease.none : MediaLease := { files := ∅, pinned := ∅ }

inductive Call
  | acquire
  | extend
  | replace
  | pin
deriving DecidableEq

/-- `self.files.keys().cloned().collect()`. -/
def MediaLease.keys (lease : MediaLease) : KeySet := Std.TreeSet.ofList lease.files.keys

/-- What a failed call leaves: `acquire` drops the lease that it was to return. -/
def MediaLease.onError (lease : MediaLease) (call : Call) : Option MediaLease := if call = .acquire then .none
    else some lease

/-- The locals of a call on its way through `replace_keys`. -/
structure Update where
  /-- The lease itself, unchanged until every missing key is locked. -/
  lease : MediaLease
  call : Call
  keys : KeySet
  /-- The pins that a success adds. -/
  pins : KeySet

def MediaLease.update (lease : MediaLease) (call : Call) (requested : KeySet) : Update where
  lease
  call
  keys := (if call = .replace then requested else lease.keys ∪ requested) ∪ lease.pinned
  pins := if call = .pin then requested else ∅

def Update.missing (u : Update) : List Key := u.keys.toList.filter fun key => !u.lease.files.contains key

/-- Where an owner is. -/
inductive Phase
  | absent
  | held (lease : MediaLease)
  /-- Acquiring the missing keys in order. -/
  | locking (u : Update) (added : Files) (missing : List Key)
  /-- Unlocking files in order: those that `retain` removes, the partial additions of a call that fails, or all of a
  lease that drops. The owner has this lease then, and its call returns this. -/
  | unlocking (rest : List (Key × Desc)) (lease : Option MediaLease) (result : Option (Except IoError Unit))
  /-- The process is gone, and its descriptors are being closed. -/
  | exiting (entries : List (Key × Desc))

def Phase.ofLease : Option MediaLease → Phase
  | some lease => .held lease
  | none => .absent

/-- An owner, with what its last call returned. -/
structure Owner where
  phase : Phase
  result : Option (Except IoError Unit)

/-- The lease an owner has, apart from what a call is adding and what it is giving up. -/
def Phase.lease : Phase → Option MediaLease
  | .held lease => some lease
  | .locking u _ _ => some u.lease
  | .unlocking _ lease _ => lease
  | .absent | .exiting _ => none

def leaseEntries : Option MediaLease → List (Key × Desc)
  | some lease => lease.files.toList
  | none => []

/-- The descriptions an owner has open. -/
def Phase.entries : Phase → List (Key × Desc)
  | .absent => []
  | .held lease => lease.files.toList
  | .locking u added _ => u.lease.files.toList ++ added.toList
  | .unlocking rest lease _ => leaseEntries lease ++ rest
  | .exiting entries => entries

structure State where
  kernel : Kernel
  owners : Nat → Owner

def State.init : State := { kernel := .boot, owners := fun _ => { phase := .absent, result := none } }

def State.phase (s : State) (o : Nat) : Phase := (s.owners o).phase

/-- What an owner does. -/
inductive OwnerAction
  /-- A call, which reads the keys of the paths it names. -/
  | call (call : Call) (reads : List (FsView × Path))
  /-- The next system call; an error of the lock directory or the lock file comes before its `flock`. -/
  | advance (fault : Option IoError)
  | drop
  | crash

inductive Action
  | own (o : Nat) (act : OwnerAction)
  /-- A child process inherits the descriptors of an owner. -/
  | fork (o : Nat)
  | dup (d : Desc)
  | closeCopy (d : Desc)

/-- A call of an owner that has this lease. -/
def Owner.call (digestKey : List UInt8 → Key) (lease : MediaLease) (call : Call) (reads : List (FsView × Path)) :
    Owner :=
  match requestedKeys digestKey reads ∅ with
  | .error e => { phase := .ofLease (lease.onError call), result := some (.error e) }
  | .ok requested =>
    let u := lease.update call requested
    { phase := .locking u ∅ u.missing, result := none }

/-- Every key is locked: the files that stay, and those to unlock. -/
def Update.retain (u : Update) (added : Files) : Phase :=
  let files := u.lease.files ∪ added
  .unlocking (files.filter fun key _ => !u.keys.contains key).toList
    (some { files := files.filter fun key _ => u.keys.contains key, pinned := u.lease.pinned ∪ u.pins })
      (some (.ok ()))

/-- The next system call of an owner. -/
def Phase.advance (o : Nat) (kernel : Kernel) (fault : Option IoError) : Phase → Option (Kernel × Owner)
  | .absent | .held _ => none
  | .locking u added [] => some (kernel, { phase := u.retain added, result := none })
  | .locking u added (key :: missing) =>
    let failed (e : IoError) : Owner :=
      { phase := .unlocking added.toList (u.lease.onError u.call) (some (.error e)), result := none }
    match fault with
    | some e => some (kernel, failed e)
    | none =>
      match kernel.lockKey o key with
      | (kernel, some d) => some (kernel, { phase := .locking u (added.insert key d) missing, result := none })
      | (kernel, none) => some (kernel, failed .wouldBlock)
  | .unlocking [] lease result => some (kernel, { phase := .ofLease lease, result })
  | .unlocking ((_, d) :: rest) lease result =>
    some (kernel.unlock d, { phase := .unlocking rest lease result, result := none })
  | .exiting [] => some (kernel, { phase := .absent, result := none })
  | .exiting ((_, d) :: entries) => some (kernel.close d, { phase := .exiting entries, result := none })

/-- The lease that a call is made on: a new one for `acquire`. -/
def Phase.callee (call : Call) : Phase → Option MediaLease
  | .absent => if call = .acquire then some .none else none
  | .held lease => if call = .acquire then none else some lease
  | _ => none

def Phase.act (digestKey : List UInt8 → Key) (o : Nat) (kernel : Kernel) (phase : Phase) : OwnerAction →
    Option (Kernel × Owner)
  | .call call reads => (phase.callee call).map fun lease => (kernel, Owner.call digestKey lease call reads)
  | .advance fault => phase.advance o kernel fault
  | .drop =>
    match phase with
    | .held lease => some (kernel, { phase := .unlocking lease.files.toList none none, result := none })
    | _ => none
  | .crash =>
    match phase with
    | .absent => none
    | phase => some (kernel, { phase := .exiting phase.entries, result := none })

def step (digestKey : List UInt8 → Key) (s : State) : Action → Option State
  | .own o act =>
    ((s.phase o).act digestKey o s.kernel act).map fun next =>
      { kernel := next.1, owners := Function.update s.owners o next.2 }
  | .fork o => some { s with kernel := s.kernel.fork ((s.phase o).entries.map Prod.snd) }
  | .dup d => (s.kernel.dup d).map fun kernel => { s with kernel }
  | .closeCopy d => (s.kernel.closeCopy d).map fun kernel => { s with kernel }

/-! ## A sample run -/

def sampleKeyA : Key := "6dbf908019d4ee65ba62108d05934d3d5b5dc60065f6d4d1b532b88144832f88".toList
def sampleKeyB : Key := "5085c1222b52f673b410900ffbd7b225aa2f64e1f5442912fd231cd99602faf1".toList
def sampleKeyInode : Key := "c90a8ca868cce9d368f8287aa07e41f06f78994a2af9ec21c14d2731b8558dcb".toList

/-- The digests of the paths `/a` and `/b` and of their one inode. -/
def sampleDigest (bytes : List UInt8) : Key :=
  if bytes = utf8 "path:/a".toList then sampleKeyA
  else if bytes = utf8 "path:/b".toList then sampleKeyB
  else if bytes = utf8 "inode:1:2".toList then sampleKeyInode
  else []

/-- Two hard links of one file. -/
def sampleView : FsView where
  canonicalize path :=
    if path = [.rootDir, .normal [97]] then .ok [47, 97]
    else if path = [.rootDir, .normal [98]] then .ok [47, 98]
    else .error .notFound
  metadata _ := .ok { isFile := true, dev := 1, ino := 2 }

def readsA : List (FsView × Path) := [(sampleView, [.rootDir, .normal [97]])]

def readsB : List (FsView × Path) := [(sampleView, [.rootDir, .normal [98]])]

/-- Four system calls of an owner. -/
def sampleAdvances (o : Nat) : List Action := List.replicate 4 (.own o (.advance none))

/-- The first owner acquires `/a` and replaces it by `/b`. The second one tries `/a`. -/
def sampleRun : List Action :=
  (.own 0 (.call .acquire readsA) :: sampleAdvances 0) ++ (.own 0 (.call .replace readsB) :: sampleAdvances 0) ++
    .own 1 (.call .acquire readsA) :: sampleAdvances 1

end BridgeVm.Media
