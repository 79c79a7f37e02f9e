import BridgeVm.Lib.LockTable
import BridgeVm.Media.LeaseLocks

/-!
# The calls of media leases

What a call has done when it returns (`call_outcome`), however the other owners move meanwhile: a success holds exactly
the keys asked for and the pinned ones, a failure leaves its owner as it was, and a key that stays is never unlocked on
the way. Seen from outside each call takes all of its keys at one instant or none (`leases_refine_lockTable`).
-/

namespace BridgeVm.Media

open Lib

variable {digestKey : List UInt8 → Key} {s s₁ s' : State} {o : Nat} {k : Key} {d : Desc} {added : Files}
  {kernel kernel' : Kernel} {p : Phase} {owner owner' : Owner} {u : Update} {lease : MediaLease} {c : Call}
  {reads : List (FsView × Path)} {requested : KeySet} {fault : Option IoError} {act : OwnerAction} {died : Prop}

/-! ## A call on its way -/

/-- A lease that holds what a call asked for: keys that its lease had keep their descriptions. -/
structure Grants (u : Update) (lease : MediaLease) : Prop where
  pins : lease.pinned = u.lease.pinned ∪ u.pins
  keys : ∀ k, k ∈ lease.files ↔ k ∈ u.keys
  kept : ∀ k d, u.lease.files[k]? = some d → k ∈ u.keys → lease.files[k]? = some d

/-- What a call on a lease returns, and the lease that it leaves. -/
inductive Settles (digestKey : List UInt8 → Key) (lease : MediaLease) (c : Call) (reads : List (FsView × Path)) :
    Option MediaLease → Except IoError Unit → Prop
  | failed (e : IoError) : Settles digestKey lease c reads (lease.onError c) (.error e)
  | succeeded {requested : KeySet} {granted : MediaLease} (hreq : requestedKeys digestKey reads ∅ = .ok requested)
      (hgrants : Grants (lease.update c requested) granted) : Settles digestKey lease c reads (some granted) (.ok ())

/-- Where a call is, and what it has returned. -/
inductive Serving (digestKey : List UInt8 → Key) (lease : MediaLease) (c : Call) (reads : List (FsView × Path)) :
    Owner → Prop
  | locking {requested : KeySet} (hreq : requestedKeys digestKey reads ∅ = .ok requested) (added : Files)
    (missing : List Key) :
      Serving digestKey lease c reads { phase := .locking (lease.update c requested) added missing, result := none }
  | settling {left : Option MediaLease} {result : Except IoError Unit} (h : Settles digestKey lease c reads left result)
      (rest : List (Key × Desc)) : Serving digestKey lease c reads
        { phase := .unlocking rest left (some result), result := none }
  | settled {left : Option MediaLease}
    {result : Except IoError Unit} (h : Settles digestKey lease c reads left result) :
      Serving digestKey lease c reads { phase := .ofLease left, result := some result }

theorem retain_grants (h : Acquiring u added []) : ∃ granted rest, Grants u granted ∧
    u.retain added = .unlocking rest (some granted) (some (.ok ())) := by
  refine ⟨_, _, ⟨rfl, fun k => ?_, fun k d hd hk => ?_⟩, rfl⟩
  · rw [mem_files_iff]
    simp only [Std.TreeMap.getElem?_filter', Option.filter_eq_some_iff]
    refine ⟨fun ⟨d, _, hk⟩ => hk, fun hk => ?_⟩
    have hmem : k ∈ u.lease.files ∪ added :=
      Std.TreeMap.mem_union_iff.mpr ((h.rest k hk).imp_right fun h => h.resolve_right (by simp))
    obtain ⟨d, hd⟩ := mem_files_iff.mp hmem
    exact ⟨d, hd, hk⟩
  · rw [Std.TreeMap.getElem?_filter', (getElem?_union_files h.new).mpr (.inl hd)]
    exact Option.filter_eq_some_iff.mpr ⟨rfl, hk⟩

/-- One system call of an owner keeps its call on its way, or returns from it. -/
theorem serving_advance (h : Serving digestKey lease c reads owner) (hwf : owner.phase.WF died)
    (hact : owner.phase.advance o kernel fault = some (kernel', owner')) : Serving digestKey lease c reads owner' := by
  cases h with
  | locking hreq added missing =>
    cases missing with
    | nil =>
      cases hact
      obtain ⟨granted, rest, hgrants, hretain⟩ := retain_grants hwf.2
      rw [hretain]
      exact .settling (.succeeded hreq hgrants) rest
    | cons key missing =>
      cases fault with
      | some e =>
        cases hact
        exact .settling (.failed e) _
      | none =>
        unfold Phase.advance at hact
        dsimp only at hact
        split at hact <;> cases hact
        · exact .locking hreq _ _
        · exact .settling (.failed _) _
  | settling h rest => cases rest <;> cases hact <;> constructor <;> exact h
  | @settled left result h => cases left <;> cases hact

theorem serving_call (digestKey : List UInt8 → Key) (lease : MediaLease) (c : Call) (reads : List (FsView × Path)) :
    Serving digestKey lease c reads (Owner.call digestKey lease c reads) := by
  unfold Owner.call
  split
  · exact .settled (.failed _)
  · exact .locking ‹_› _ _

/-- While a call is on its way its owner only advances. -/
def InCall (o : Nat) (a : Action) : Prop := ∀ act, a = .own o act → ∃ fault, act = .advance fault

theorem serving_run (hinv : Inv True s₁) (h : Serving digestKey lease c reads (s₁.owners o))
    (hrun : Reaches (step digestKey) (fun _ a => InCall o a) s₁ s') :
    Inv True s' ∧ Serving digestKey lease c reads (s'.owners o) := by
  refine hrun.invariant (P := fun s => Inv True s ∧ Serving digestKey lease c reads (s.owners o)) ⟨hinv, h⟩ ?_
  rintro s s' a ⟨hinv, h⟩ hcall hstep
  refine ⟨inv_step hinv (fun _ _ => trivial) hstep, ?_⟩
  cases a with
  | own o' act =>
    obtain ⟨kernel, owner, hact, rfl⟩ := step_own hstep
    by_cases ho : o = o'
    · subst ho
      obtain ⟨fault, rfl⟩ := hcall act rfl
      simpa using serving_advance h (hinv.wf o) hact
    · simpa [ho] using h
  | fork o' =>
    cases hstep
    exact h
  | dup d | closeCopy d =>
    obtain ⟨kernel, -, rfl⟩ := Option.map_eq_some_iff.mp hstep
    exact h

/-- The files of a lease are open. -/
def HasFiles (owner : Owner) (lease : MediaLease) : Prop :=
  ∀ k d, lease.files[k]? = some d → (k, d) ∈ owner.phase.entries

/-- All that a call asked for is open. -/
def HasRequested (digestKey : List UInt8 → Key) (lease : MediaLease) (c : Call) (reads : List (FsView × Path))
    (owner : Owner) :
    Prop := ∃ requested granted, requestedKeys digestKey reads ∅ = .ok requested ∧
    Grants (lease.update c requested) granted ∧
  HasFiles owner granted

theorem settles_entries {left : Option MediaLease}
    {result : Except IoError Unit} (h : Settles digestKey lease c reads left result)
    (hfresh : c = .acquire → lease = .none) (hsub : ∀ e ∈ leaseEntries left, e ∈ owner.phase.entries) :
    HasFiles owner lease ∨ HasRequested digestKey lease c reads owner := by
  cases h with
  | failed e =>
    rw [entries_onError hfresh] at hsub
    exact .inl fun k d hd => hsub _ (mem_toList_files.mpr hd)
  | succeeded hreq hgrants => exact .inr ⟨_, _, hreq, hgrants, fun k d hd => hsub _ (mem_toList_files.mpr hd)⟩

theorem serving_entries (h : Serving digestKey lease c reads owner) (hfresh : c = .acquire → lease = .none) :
    HasFiles owner lease ∨ HasRequested digestKey lease c reads owner := by
  cases h with
  | locking hreq added missing => exact .inl fun k d hd => List.mem_append_left _ (mem_toList_files.mpr hd)
  | settling h rest => exact settles_entries h hfresh fun e he => List.mem_append_left _ he
  | settled h => exact settles_entries h hfresh fun e he => (entries_ofLease _).symm ▸ he

theorem serving_returned {result : Except IoError Unit} (h : Serving digestKey lease c reads owner)
    (hresult : owner.result = some result) :
    ∃ left, Settles digestKey lease c reads left result ∧ owner.phase = .ofLease left := by
  cases h with
  | locking | settling => cases hresult
  | settled h =>
    cases hresult
    exact ⟨_, h, rfl⟩

/-- What a call on a lease has done, in a state on its way or after its return. -/
structure CallOutcome (digestKey : List UInt8 → Key) (lease : MediaLease) (c : Call)
    (reads : List (FsView × Path)) (o : Nat)
    (before s : State) : Prop where
  /-- A key that stays is locked all the way, by the same description. -/
  kept {requested : KeySet} {k : Key} {d : Desc} (hreq : requestedKeys digestKey reads ∅ = .ok requested)
    (hd : lease.files[k]? = some d) (hk : k ∈ (lease.update c requested).keys) : s.kernel.locked k = some d
  /-- No key is unlocked before all that are asked for are locked. -/
  ordered : (∀ k d, lease.files[k]? = some d → s.kernel.locked k = some d) ∨
    ∃ requested, requestedKeys digestKey reads ∅ = .ok requested ∧
    ∀ k ∈ (lease.update c requested).keys, s.Owns o k
  /-- An error leaves the owner with its files and its pins. -/
  failed {e : IoError} (h : (s.owners o).result = some (.error e)) : s.phase o = before.phase o
  /-- A success holds what was asked for and no more. -/
  succeeded (h : (s.owners o).result = some (.ok ())) : ∃ requested granted,
    requestedKeys digestKey reads ∅ = .ok requested ∧ s.phase o = .held granted ∧
    granted.pinned = lease.pinned ∪ (lease.update c requested).pins ∧
    ∀ k, k ∈ granted.files ↔ k ∈ (lease.update c requested).keys

/-- **What a call has done at every moment until its owner calls again, whatever the other owners do.** -/
theorem call_outcome {ok : State → Action → Prop} (hreach : Reaches (step digestKey) ok State.init s)
    (hcall : step digestKey s (.own o (.call c reads)) = some s₁)
    (hrun : Reaches (step digestKey) (fun _ a => InCall o a) s₁ s') :
    ∃ lease, (s.phase o).callee c = some lease ∧ CallOutcome digestKey lease c reads o s s' := by
  have hinv₁ := inv_step (inv_of_reaches True hreach fun _ _ _ => trivial) (fun _ _ => trivial) hcall
  obtain ⟨kernel, owner, hact, rfl⟩ := step_own hcall
  obtain ⟨lease, hcallee, howner⟩ := Option.map_eq_some_iff.mp hact
  cases howner
  obtain ⟨hphase, hfresh⟩ := of_callee hcallee
  obtain ⟨hinv, hserving⟩ := serving_run (o := o) hinv₁ (by simpa using serving_call digestKey lease c reads) hrun
  have hlocked {k : Key} {d : Desc} (hmem : (k, d) ∈ (s'.phase o).entries) : s'.kernel.locked k = some d :=
    ((hinv.locks.held o k d).mp hmem).1
  refine ⟨lease, hcallee, fun {requested k d} hreq hd hk => ?_, ?_, fun {e} hresult => ?_, fun hresult => ?_⟩
  · obtain hintact | ⟨requested', granted, hreq', hgrants, hentries⟩ := serving_entries hserving hfresh
    · exact hlocked (hintact k d hd)
    · cases hreq.symm.trans hreq'
      exact hlocked (hentries k d (hgrants.kept k d hd hk))
  · refine (serving_entries hserving hfresh).imp (fun hintact k d hd => hlocked (hintact k d hd)) ?_
    rintro ⟨requested, granted, hreq, hgrants, hentries⟩
    refine ⟨requested, hreq, fun k hk => ?_⟩
    obtain ⟨d, hd⟩ := mem_files_iff.mp ((hgrants.keys k).mpr hk)
    exact ⟨d, hentries k d hd⟩
  · obtain ⟨left, hsettles, hleft⟩ := serving_returned hserving hresult
    cases hsettles
    exact hleft.trans hphase.symm
  · obtain ⟨left, hsettles, hleft⟩ := serving_returned hserving hresult
    cases hsettles with
    | succeeded hreq hgrants => exact ⟨_, _, hreq, hleft, hgrants.pins, hgrants.keys⟩

/-- The first owner replaces the keys of `/a` by those of `/b`. -/
theorem call_outcome_replace : ∃ lease, ((sampleState 5).phase 0).callee .replace = some lease ∧
    lease.files.toList = [(sampleKeyA, 0), (sampleKeyInode, 1)] ∧
    CallOutcome sampleDigest lease .replace readsB 0 (sampleState 5) (sampleState 10) := by
  have hstart := runs_sampleState (show (runs (step sampleDigest) State.init (sampleRun.take 5)).isSome =
    true by decide +kernel)
  have hend := runs_sampleState (show (runs (step sampleDigest) State.init (sampleRun.take 10)).isSome =
    true by decide +kernel)
  have hsplit : sampleRun.take 10 = sampleRun.take 5 ++ .own 0 (.call .replace readsB) :: sampleAdvances 0 := rfl
  rw [hsplit, runs_append, hstart] at hend
  obtain ⟨s₁, hcall, hrest⟩ := runs_cons hend
  have hreached : Reaches (step sampleDigest) (fun _ _ => True) State.init (sampleState 5) :=
    Reaches.start.run (fun _ _ _ => trivial) hstart
  obtain ⟨lease, hlease, houtcome⟩ := call_outcome hreached hcall (Reaches.start.run (fun _ a ha act hact => by
    cases (List.eq_of_mem_replicate ha).symm.trans hact
    exact ⟨none, rfl⟩) hrest)
  have hfiles : (((sampleState 5).phase 0).callee .replace).map (fun lease => lease.files.toList) =
      some [(sampleKeyA, 0), (sampleKeyInode, 1)] := by decide +kernel
  rw [hlease, Option.map_some, Option.some.injEq] at hfiles
  exact ⟨lease, hlease, hfiles, houtcome⟩

/-! ## The lock table -/

def leaseKeys : Option MediaLease → Set Key
  | some lease => { k | k ∈ lease.files }
  | none => ∅

/-- The keys of the lease that an owner has. -/
def Phase.keys (p : Phase) : Set Key := leaseKeys p.lease

theorem keys_ofLease (lease : Option MediaLease) : (Phase.ofLease lease).keys = leaseKeys lease := by
  cases lease <;> rfl

theorem keys_onError (hfresh : c = .acquire → lease = .none) :
    leaseKeys (lease.onError c) = { k | k ∈ lease.files } := by
  unfold MediaLease.onError
  by_cases hc : c = .acquire
  · rw [if_pos hc, hfresh hc]
    exact (Set.eq_empty_iff_forall_notMem.mpr fun k hk => by simp [MediaLease.none] at hk).symm
  · rw [if_neg hc]
    rfl

/-- The keys of a lease are those of descriptions that its owner has open. -/
theorem owns_of_keys (h : k ∈ (s.phase o).keys) : s.Owns o k := by
  unfold State.Owns
  cases hphase : s.phase o with
  | absent | exiting =>
    rw [hphase] at h
    exact h.elim
  | held lease =>
    rw [hphase] at h
    obtain ⟨d, hd⟩ := mem_files_iff.mp h
    exact ⟨d, mem_toList_files.mpr hd⟩
  | locking u added missing =>
    rw [hphase] at h
    obtain ⟨d, hd⟩ := mem_files_iff.mp h
    exact ⟨d, List.mem_append_left _ (mem_toList_files.mpr hd)⟩
  | unlocking rest lease result =>
    rw [hphase] at h
    cases lease with
    | none => exact h.elim
    | some lease =>
      obtain ⟨d, hd⟩ := mem_files_iff.mp h
      exact ⟨d, List.mem_append_left _ (mem_toList_files.mpr hd)⟩

/-- The lock table of the owners. -/
def table (s : State) (hinv : Inv True s) : LockTable Nat Key where
  holds o := (s.phase o).keys
  exclusive h h' := owns_exclusive hinv (owns_of_keys h) (owns_of_keys h')

/-- The keys that an owner holds from this step on, where it changes them. -/
def Phase.op (p : Phase) : OwnerAction → Option (Set Key)
  | .call _ _ => none
  | .advance _ =>
    match p with
    | .locking u _ [] => some { k | k ∈ u.keys }
    | _ => none
  | .drop | .crash => some ∅

def State.op (s : State) : Action → Option (Nat × Set Key)
  | .own o act => ((s.phase o).op act).map fun keys => (o, keys)
  | _ => none

/-- The operations on the lock table that a run of the owners makes. -/
def tableOps (digestKey : List UInt8 → Key) (s : State) : List Action → List (Nat × Set Key)
  | [] => []
  | a :: as =>
    match step digestKey s a with
    | some s' => (s.op a).toList ++ tableOps digestKey s' as
    | none => []

theorem keys_advance (hwf : p.WF died) (hact : p.advance o kernel fault = some (kernel', owner)) :
    owner.phase.keys = (p.op (.advance fault)).getD p.keys := by
  cases p with
  | absent => cases hact
  | held lease => cases hact
  | locking u added missing =>
    cases missing with
    | nil =>
      cases hact
      obtain ⟨granted, rest, hgrants, hretain⟩ := retain_grants hwf.2
      rw [hretain]
      exact Set.ext hgrants.keys
    | cons key missing =>
      cases fault with
      | some e =>
        cases hact
        exact keys_onError hwf.2.fresh
      | none =>
        unfold Phase.advance at hact
        dsimp only at hact
        split at hact <;> cases hact
        · rfl
        · exact keys_onError hwf.2.fresh
  | unlocking rest lease result =>
    cases rest with
    | nil =>
      cases hact
      exact keys_ofLease lease
    | cons e rest =>
      cases hact
      rfl
  | exiting entries => cases entries <;> cases hact <;> rfl

/-- **What an owner does to the lock table.** -/
theorem keys_act (hwf : p.WF died) (hact : p.act digestKey o kernel act = some (kernel', owner)) :
    owner.phase.keys = (p.op act).getD p.keys := by
  cases act with
  | call c reads =>
    obtain ⟨lease, hcallee, howner⟩ := Option.map_eq_some_iff.mp hact
    cases howner
    obtain ⟨rfl, hfresh⟩ := of_callee hcallee
    change _ = (Phase.ofLease (lease.onError c)).keys
    unfold Owner.call
    split
    · rfl
    · rw [keys_ofLease, keys_onError hfresh]
      rfl
  | advance fault => exact keys_advance hwf hact
  | drop =>
    cases p with
    | held lease =>
      cases hact
      rfl
    | absent | locking | unlocking | exiting => cases hact
  | crash =>
    cases p with
    | absent => cases hact
    | held | locking | unlocking | exiting =>
      cases hact
      rfl

/-- A run of the owners is a run of the lock table. -/
theorem table_run {as : List Action} (hinv : Inv True s) (hrun : runs (step digestKey) s as = some s') :
    ∃ hinv' : Inv True s', LockTable.Run (table s hinv) (tableOps digestKey s as) (table s' hinv') := by
  induction as generalizing s with
  | nil =>
    cases hrun
    exact ⟨hinv, .nil _⟩
  | cons a as ih =>
    obtain ⟨mid, hstep, hrest⟩ := runs_cons hrun
    have hmid := inv_step hinv (fun _ _ => trivial) hstep
    obtain ⟨hinv', htail⟩ := ih hmid hrest
    refine ⟨hinv', ?_⟩
    rw [tableOps, hstep]
    cases a with
    | own o act =>
      obtain ⟨kernel, owner, hact, rfl⟩ := step_own hstep
      have hkeys := keys_act (hinv.wf o) hact
      have hother : ∀ o', o' ≠ o → (table _ hmid).holds o' = (table s hinv).holds o' := by
        intro o' hne
        simp [table, State.phase, hne]
      have hown : (table _ hmid).holds o = owner.phase.keys := by simp [table, State.phase]
      cases hop : (s.phase o).op act with
      | none =>
        rw [hop] at hkeys
        have htable : table _ hmid = table s hinv := by
          refine LockTable.ext (funext fun o' => ?_)
          by_cases ho : o' = o
          · rw [ho, hown]
            exact hkeys
          · exact hother o' ho
        rw [htable] at htail
        simpa [State.op, hop] using htail
      | some keys =>
        rw [hop] at hkeys
        have hhold : LockTable.Hold (table s hinv) o keys (table _ hmid) := .of_change (hown.trans hkeys) hother
        simpa [State.op, hop] using LockTable.Run.cons hhold htail
    | fork o =>
      cases hstep
      exact htail
    | dup d | closeCopy d =>
      obtain ⟨kernel, -, rfl⟩ := Option.map_eq_some_iff.mp hstep
      exact htail

/-- **All or nothing, at one instant: whatever the interleaving of their system calls, the owners are those of a lock
table, on which a call that succeeds takes every key it asked for in one operation and a call that fails takes
none.** -/
theorem leases_refine_lockTable {as : List Action} (hrun : runs (step digestKey) State.init as = some s) :
    ∃ hinv : Inv True s, LockTable.Run .free (tableOps digestKey State.init as) (table s hinv) := by
  have hinit : table State.init inv_init = LockTable.free := LockTable.ext rfl
  rw [← hinit]
  exact table_run inv_init hrun

theorem leases_refine_lockTable_sample :
    ∃ hinv, LockTable.Run .free (tableOps sampleDigest State.init (sampleRun.take 15))
      (table (sampleState 15) hinv) :=
  leases_refine_lockTable (runs_sampleState (by decide +kernel))

end BridgeVm.Media
