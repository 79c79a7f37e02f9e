import BridgeVm.Media.Lease

/-!
# The locks of media leases over whole runs

What every run keeps (`Inv`, `inv_of_reaches`): the descriptions that an owner has open are those of its locks, and a
lock without an owner is what copied descriptors keep of a process that died. Two owners never hold the same file
(`leases_exclusive`), and without a death no lock outlives its lease (`locks_accounted`).
-/

namespace BridgeVm.Media

open Lib

variable {digestKey : List UInt8 → Key} {s s' : State} {o o' : Nat} {key k : Key} {d d' : Desc} {files added : Files}
  {kernel kernel' : Kernel} {p : Phase} {owner : Owner} {u : Update} {e : Key × Desc} {died : Prop}

/-! ## Files -/

theorem mem_toList_files : (k, d) ∈ files.toList ↔ files[k]? = some d :=
  Std.TreeMap.mem_toList_iff_getElem?_eq_some

theorem mem_files_iff : k ∈ files ↔ ∃ d, files[k]? = some d := by
  rw [Std.TreeMap.mem_iff_isSome_getElem?, Option.isSome_iff_exists]

theorem getElem?_of_not_mem (h : k ∉ files) : files[k]? = none := by
  simpa [mem_files_iff, Option.eq_none_iff_forall_ne_some] using h

theorem mem_insert_entries (hnew : key ∉ files) : e ∈ (files.insert key d).toList ↔ e ∈ files.toList ∨
    e = (key, d) := by
  obtain ⟨k, d'⟩ := e
  rw [mem_toList_files, mem_toList_files, Std.TreeMap.getElem?_insert]
  by_cases hk : key = k
  · subst hk
    rw [if_pos Std.ReflCmp.compare_self, getElem?_of_not_mem hnew]
    simp [eq_comm]
  · rw [if_neg fun he => hk (Std.LawfulEqCmp.compare_eq_iff_eq.mp he)]
    simp [Ne.symm hk]

theorem mem_insert_files : k ∈ files.insert key d ↔ key = k ∨ k ∈ files := by
  rw [Std.TreeMap.mem_insert]
  exact or_congr Std.LawfulEqCmp.compare_eq_iff_eq Iff.rfl

theorem getElem?_union_files (hnew : ∀ k ∈ added, k ∉ files) :
    (files ∪ added)[k]? = some d ↔ files[k]? = some d ∨ added[k]? = some d := by
  rw [Std.TreeMap.getElem?_union]
  by_cases hk : k ∈ added
  · rw [getElem?_of_not_mem (hnew k hk)]
    simp
  · rw [getElem?_of_not_mem hk]
    simp

theorem nodup_files (files : Files) : files.toList.Nodup := by
  refine Std.TreeMap.distinct_keys_toList.imp ?_
  rintro e _ hne rfl
  exact hne Std.ReflCmp.compare_self

/-! ## Owners -/

/-- The locals of a call that is acquiring: `acquire` starts from a lease that holds nothing, and each key asked for is
the lease's, added or missing. -/
structure Acquiring (u : Update) (added : Files) (missing : List Key) : Prop where
  fresh : u.call = .acquire → u.lease = .none
  new : ∀ k ∈ added, k ∉ u.lease.files
  rest : ∀ k ∈ u.keys, k ∈ u.lease.files ∨ k ∈ added ∨ k ∈ missing

/-- What the locals of an owner meet; `died` is whether a process may have died. -/
def Phase.WF (died : Prop) (p : Phase) : Prop :=
  p.entries.Nodup ∧
    match p with
    | .locking u added missing => Acquiring u added missing
    | .exiting _ => died
    | _ => True

theorem entries_ofLease (lease : Option MediaLease) : (Phase.ofLease lease).entries = leaseEntries lease := by
  cases lease <;> rfl

theorem wf_ofLease (lease : Option MediaLease) : (Phase.ofLease lease).WF died := by
  cases lease with
  | none => exact ⟨List.nodup_nil, trivial⟩
  | some lease => exact ⟨nodup_files _, trivial⟩

theorem wf_locking {missing : List Key} (h : Acquiring u added missing) : (Phase.locking u added missing).WF died := by
  refine ⟨List.nodup_append.mpr ⟨nodup_files _, nodup_files _, ?_⟩, h⟩
  rintro ⟨k, d⟩ hk _ hk' rfl
  exact h.new k (mem_files_iff.mpr ⟨d, mem_toList_files.mp hk'⟩) (mem_files_iff.mpr ⟨d, mem_toList_files.mp hk⟩)

theorem entries_onError {lease : MediaLease} {c : Call} (h : c = .acquire → lease = .none) :
    leaseEntries (lease.onError c) = lease.files.toList := by
  unfold MediaLease.onError
  by_cases hc : c = .acquire
  · rw [if_pos hc, h hc]
    rfl
  · rw [if_neg hc]
    rfl

theorem owner_call (died : Prop) (digestKey : List UInt8 → Key) {lease : MediaLease} {c : Call}
    (h : c = .acquire → lease = .none)
    (reads : List (FsView × Path)) :
    (Owner.call digestKey lease c reads).phase.WF died ∧
      (Owner.call digestKey lease c reads).phase.entries = lease.files.toList := by
  unfold Owner.call
  split
  · exact ⟨wf_ofLease _, by rw [entries_ofLease, entries_onError h]⟩
  · refine ⟨wf_locking ⟨h, by simp, fun k hk => ?_⟩, List.append_nil _⟩
    by_cases hfiles : k ∈ lease.files
    · exact .inl hfiles
    · refine .inr (.inr (List.mem_filter.mpr ⟨Std.TreeSet.mem_toList.mpr hk, ?_⟩))
      rw [Bool.not_eq_true', ← Bool.not_eq_true]
      exact hfiles

theorem of_callee {c : Call} {lease : MediaLease} (h : p.callee c = some lease) :
    p = .ofLease (lease.onError c) ∧ (c = .acquire → lease = .none) := by
  unfold MediaLease.onError
  cases p with
  | absent =>
    obtain ⟨hc, rfl⟩ : c = .acquire ∧ MediaLease.none = lease := by simpa [Phase.callee] using h
    exact ⟨by rw [if_pos hc]; rfl, fun _ => rfl⟩
  | held lease' =>
    obtain ⟨hc, rfl⟩ : c ≠ .acquire ∧ lease' = lease := by simpa [Phase.callee] using h
    exact ⟨by rw [if_neg hc]; rfl, fun he => absurd he hc⟩
  | locking | unlocking | exiting => cases h

theorem retain_entries (died : Prop) (h : Acquiring u added []) : (u.retain added).WF died ∧
    ∀ e, e ∈ (u.retain added).entries ↔ e ∈ u.lease.files.toList ∨ e ∈ added.toList := by
  have hperm : (u.retain added).entries.Perm (u.lease.files ∪ added).toList := by
    rw [Update.retain, Phase.entries, leaseEntries, Std.TreeMap.toList_filter, Std.TreeMap.toList_filter]
    simpa using List.filter_append_perm (fun e : Key × Desc => u.keys.contains e.1) (u.lease.files ∪ added).toList
  refine ⟨⟨hperm.nodup_iff.mpr (nodup_files _), trivial⟩, fun ⟨k, d⟩ => ?_⟩
  rw [hperm.mem_iff, mem_toList_files, mem_toList_files, mem_toList_files, getElem?_union_files h.new]

theorem remove_entry {front rest : List (Key × Desc)} (h : (front ++ e :: rest).Nodup) :
    (front ++ rest).Nodup ∧ ∀ e', e' ∈ front ++ rest ↔ e' ∈ front ++ e :: rest ∧ e' ≠ e := by
  have hnodup := List.nodup_cons.mp (List.perm_middle.nodup_iff.mp h)
  refine ⟨hnodup.2, fun e' => ?_⟩
  rw [List.perm_middle.mem_iff, List.mem_cons]
  by_cases he : e' = e
  · simpa [he] using hnodup.1
  · simp [he]

/-! ## Locks -/

/-- The open descriptions of the owners are those of the locks; after a death copied descriptors may keep others. -/
structure Locks (died : Prop) (kernel : Kernel) (has : Nat → Set (Key × Desc)) : Prop where
  held (o : Nat) (k : Key) (d : Desc) : (k, d) ∈ has o ↔ kernel.locked k = some d ∧ kernel.owner d = some o
  below {k : Key} {d : Desc} (h : kernel.locked k = some d) : d < kernel.next
  once {k k' : Key} {d : Desc} (h : kernel.locked k = some d) (h' : kernel.locked k' = some d) : k = k'
  orphan {k : Key} {d : Desc} (h : kernel.locked k = some d) (hown : kernel.owner d = none) : died ∧
    0 < kernel.copies d

section Locks

variable {has : Nat → Set (Key × Desc)} {entries : List (Key × Desc)}

theorem Locks.next (h : Locks died kernel has) : Locks died { kernel with next := kernel.next + 1 } has :=
  { h with below := fun hk => Nat.lt_succ_of_lt (h.below hk) }

theorem Locks.same (h : Locks died kernel has) (hsame : ∀ e, e ∈ entries ↔ e ∈ has o) :
    Locks died kernel (Function.update has o { e | e ∈ entries }) := by
  have heq : { e | e ∈ entries } = has o := Set.ext hsame
  rwa [heq, Function.update_eq_self]

/-- A free key is locked by a description of its own. -/
theorem Locks.lock (h : Locks died kernel has) (hfree : kernel.locked key = none)
    (hentries : ∀ e, e ∈ entries ↔ e ∈ has o ∨ e = (key, kernel.next)) :
    Locks died (kernel.lockKey o key).1 (Function.update has o { e | e ∈ entries }) := by
  have hold {k : Key} {d : Desc} (hd : kernel.locked k = some d) : k ≠ key ∧ d ≠ kernel.next := by
    refine ⟨?_, Nat.ne_of_lt (h.below hd)⟩
    rintro rfl
    cases hfree.symm.trans hd
  have hlocked (k : Key) (d : Desc) : Function.update kernel.locked key (some kernel.next) k = some d ↔
      kernel.locked k = some d ∨ k = key ∧ d = kernel.next := by
    rw [Function.update_apply]
    by_cases hk : k = key
    · simp [hk, hfree, eq_comm]
    · simp [hk]
  unfold Kernel.lockKey
  rw [hfree]
  refine ⟨fun o' k d => ?_, fun {k d} hd => ?_, fun {k k' d} hd hd' => ?_, fun {k d} hd hown => ?_⟩
  · grind [h.held, Function.update_apply]
  · obtain hd | ⟨-, rfl⟩ := (hlocked k d).mp hd
    · exact Nat.lt_succ_of_lt (h.below hd)
    · exact Nat.lt_succ_self _
  · grind [h.once]
  · obtain hd | ⟨-, rfl⟩ := (hlocked k d).mp hd
    · exact h.orphan hd ((Function.update_of_ne (hold hd).2 ..).symm.trans hown)
    · cases (Function.update_self kernel.next ..).symm.trans hown

theorem locked_release : (kernel.release d).locked k = some d' ↔ kernel.locked k = some d' ∧ d' ≠ d := by
  unfold Kernel.release
  dsimp only
  split
  · rename_i hd
    simp [hd, eq_comm]
  · rename_i hd
    exact ⟨fun h => ⟨h, fun he => hd (he ▸ h)⟩, fun h => h.1⟩

theorem locked_close :
    (kernel.close d).locked k = some d' ↔ kernel.locked k = some d' ∧ (d' = d → 0 < kernel.copies d) := by
  unfold Kernel.close
  dsimp only
  split
  · rename_i hzero
    rw [locked_release, hzero]
    simp
  · rename_i hpos
    simp [Nat.pos_of_ne_zero hpos]

theorem locked_unlock : (kernel.unlock d).locked k = some d' ↔ kernel.locked k = some d' ∧ (d' = d → False) := by
  rw [Kernel.unlock, locked_close, locked_release]
  tauto

theorem close_fields (kernel : Kernel) (d : Desc) : (kernel.close d).owner = Function.update kernel.owner d none ∧
    (kernel.close d).copies = kernel.copies ∧ (kernel.close d).next = kernel.next := by
  unfold Kernel.close
  dsimp only
  split <;> exact ⟨rfl, rfl, rfl⟩

/-- A description of an owner is closed; where its lock is kept, copies keep it. -/
theorem Locks.remove {kept : Prop} (h : Locks died kernel has) (hmem : (key, d) ∈ has o)
    (hentries : ∀ e, e ∈ entries ↔ e ∈ has o ∧ e ≠ (key, d))
    (hlocked : ∀ {k d'}, kernel'.locked k = some d' ↔ kernel.locked k = some d' ∧ (d' = d → kept))
    (hkept : kept → died ∧ 0 < kernel.copies d)
    (hkernel : kernel'.owner = Function.update kernel.owner d none ∧ kernel'.copies = kernel.copies ∧
      kernel'.next = kernel.next) : Locks died kernel' (Function.update has o { e | e ∈ entries }) := by
  obtain ⟨howner, hcopies, hnext⟩ := hkernel
  refine ⟨fun o' k d' => ?_, fun hk => hnext ▸ h.below (hlocked.mp hk).1,
    fun hk hk' => h.once (hlocked.mp hk).1 (hlocked.mp hk').1, fun {k d'} hk hnone => ?_⟩
  · have hmem' : (k, d') ∈ Function.update has o { e | e ∈ entries } o' ↔
        (k, d') ∈ has o' ∧ ¬(o' = o ∧ (k, d') = (key, d)) := by
      by_cases ho : o' = o
      · simp [ho, hentries]
      · simp [ho]
    rw [hmem', h.held, hlocked, howner, Function.update_apply]
    obtain ⟨hd, hown⟩ := (h.held o key d).mp hmem
    by_cases hdd : d' = d
    · subst hdd
      refine iff_of_false (fun ⟨⟨hk, ho⟩, hne⟩ => hne ⟨?_, by rw [h.once hk hd]⟩) (by simp)
      exact Option.some.inj (ho.symm.trans hown)
    · simp [hdd]
  · obtain ⟨hk, hlast⟩ := hlocked.mp hk
    rw [hcopies]
    by_cases hdd : d' = d
    · exact hdd ▸ hkept (hlast hdd)
    · rw [howner, Function.update_of_ne hdd] at hnone
      exact h.orphan hk hnone

theorem Locks.copy (h : Locks died kernel has) {copies : Desc → Nat} (hcopies : ∀ d, kernel.copies d ≤ copies d) :
    Locks died { kernel with copies } has :=
  { h with orphan := fun hk hnone => (h.orphan hk hnone).imp_right fun hpos => Nat.lt_of_lt_of_le hpos (hcopies _) }

/-- A copy is closed: the last descriptor of an orphan takes its lock with it. -/
theorem Locks.closeCopy (h : Locks died kernel has) (hclose : kernel.closeCopy d = some kernel') :
    Locks died kernel' has := by
  unfold Kernel.closeCopy at hclose
  split at hclose
  · cases hclose
  · have hcopies {d' : Desc} (hne : d' ≠ d) : Function.update kernel.copies d (kernel.copies d - 1) d' =
      kernel.copies d' :=
      Function.update_of_ne hne ..
    dsimp only at hclose
    cases hclose
    split
    · rename_i hlast
      refine ⟨fun o k d' => ?_, fun hk => h.below (locked_release.mp hk).1,
        fun hk hk' => h.once (locked_release.mp hk).1 (locked_release.mp hk').1, fun {k d'} hk hnone => ?_⟩
      · rw [h.held, locked_release]
        refine ⟨fun hheld => ⟨⟨hheld.1, ?_⟩, hheld.2⟩, fun hheld => ⟨hheld.1.1, hheld.2⟩⟩
        rintro rfl
        cases hlast.1.symm.trans hheld.2
      · obtain ⟨hk, hne⟩ := locked_release.mp hk
        refine (h.orphan hk hnone).imp_right fun hpos => ?_
        exact Nat.lt_of_lt_of_eq hpos (hcopies hne).symm
    · rename_i hnot
      refine { h with orphan := fun {k d'} hk hnone => (h.orphan hk hnone).imp_right fun hpos => ?_ }
      change 0 < Function.update kernel.copies d (kernel.copies d - 1) d'
      by_cases hdd : d' = d
      · have hone : kernel.copies d ≠ 1 := fun he => hnot ⟨hdd ▸ hnone, he⟩
        rw [hdd, Function.update_self]
        rw [hdd] at hpos
        omega
      · rwa [hcopies hdd]

/-- A system call of an owner. -/
theorem locks_advance {fault : Option IoError} (h : Locks died kernel has)
    (hhas : ∀ e, e ∈ has o ↔ e ∈ p.entries)
    (hwf : p.WF died) (hadv : p.advance o kernel fault = some (kernel', owner)) :
    owner.phase.WF died ∧ Locks died kernel' (Function.update has o { e | e ∈ owner.phase.entries }) := by
  cases p with
  | absent => cases hadv
  | held lease => cases hadv
  | locking u added missing =>
    obtain ⟨hnodup, hacq⟩ := hwf
    have hfailed (err : IoError) (h : Locks died kernel' has) :
        let p' := Phase.unlocking added.toList (u.lease.onError u.call) (some (.error err))
        p'.WF died ∧ Locks died kernel' (Function.update has o { e | e ∈ p'.entries }) := by
      intro p'
      have hentries : p'.entries = (Phase.locking u added missing).entries := by
        change leaseEntries _ ++ _ = _
        rw [entries_onError hacq.fresh]
        rfl
      exact ⟨⟨hentries ▸ hnodup, trivial⟩, h.same fun e => by rw [hhas, hentries]⟩
    cases missing with
    | nil =>
      cases hadv
      obtain ⟨hwf, hentries⟩ := retain_entries died hacq
      exact ⟨hwf, h.same fun e => by rw [hentries, hhas, Phase.entries, List.mem_append]⟩
    | cons key missing =>
      cases fault with
      | some err =>
        cases hadv
        exact hfailed err h
      | none =>
        unfold Phase.advance at hadv
        dsimp only at hadv
        by_cases hfree : kernel.locked key = none
        · have hlock : kernel.lockKey o key = ((kernel.lockKey o key).1, some kernel.next) := by
            unfold Kernel.lockKey
            rw [hfree]
          rw [hlock] at hadv
          cases hadv
          -- A key that no one has locked is not among the files of this owner.
          have hnew {files : Files} (hsub : ∀ e ∈ files.toList,
            e ∈ (Phase.locking u added (key :: missing)).entries) :
              key ∉ files := by
            intro hmem
            obtain ⟨d, hd⟩ := mem_files_iff.mp hmem
            have hheld := (h.held o key d).mp ((hhas _).mpr (hsub _ (mem_toList_files.mpr hd)))
            cases hfree.symm.trans hheld.1
          have hadded := hnew fun e he => List.mem_append_right _ he
          refine ⟨wf_locking ⟨hacq.fresh, fun k hk => ?_, fun k hk => ?_⟩, h.lock hfree fun e => ?_⟩
          · obtain rfl | hk := mem_insert_files.mp hk
            · exact hnew fun e he => List.mem_append_left _ he
            · exact hacq.new k hk
          · have hrest := hacq.rest k hk
            rw [List.mem_cons, eq_comm] at hrest
            rw [mem_insert_files]
            tauto
          · rw [hhas, Phase.entries, Phase.entries, List.mem_append, List.mem_append,
              mem_insert_entries hadded, or_assoc]
        · obtain ⟨d', hd'⟩ := Option.ne_none_iff_exists'.mp hfree
          unfold Kernel.lockKey at hadv
          rw [hd'] at hadv
          cases hadv
          exact hfailed .wouldBlock h.next
  | unlocking rest lease result =>
    cases rest with
    | nil =>
      cases hadv
      exact ⟨wf_ofLease lease, h.same fun e => by rw [hhas, entries_ofLease, Phase.entries, List.append_nil]⟩
    | cons e rest =>
      cases hadv
      obtain ⟨hnodup, hentries⟩ := remove_entry hwf.1
      refine ⟨⟨hnodup, trivial⟩, ?_⟩
      exact h.remove ((hhas e).mpr (by simp [Phase.entries])) (fun e' => by rw [hhas]; exact hentries e') locked_unlock
        (fun hf => hf.elim) (close_fields _ _)
  | exiting entries =>
    cases entries with
    | nil =>
      cases hadv
      exact ⟨⟨List.nodup_nil, trivial⟩, h.same fun e => by rw [hhas]; rfl⟩
    | cons e entries =>
      cases hadv
      obtain ⟨hnodup, hentries⟩ := @remove_entry e [] entries hwf.1
      refine ⟨⟨hnodup, hwf.2⟩, ?_⟩
      exact h.remove ((hhas e).mpr List.mem_cons_self) (fun e' => by rw [hhas]; exact hentries e') locked_close
        (fun hpos => ⟨hwf.2, hpos⟩) (close_fields _ _)

/-- **What an owner does keeps its locals and the locks as they should be.** -/
theorem locks_act {act : OwnerAction} (h : Locks died kernel has) (hhas : ∀ e, e ∈ has o ↔ e ∈ p.entries)
    (hwf : p.WF died)
    (hdied : act = .crash → died) (hact : p.act digestKey o kernel act = some (kernel', owner)) :
    owner.phase.WF died ∧ Locks died kernel' (Function.update has o { e | e ∈ owner.phase.entries }) := by
  cases act with
  | call c reads =>
    obtain ⟨lease, hcallee, hcall⟩ := Option.map_eq_some_iff.mp hact
    cases hcall
    obtain ⟨rfl, hfresh⟩ := of_callee hcallee
    obtain ⟨hwf, hentries⟩ := owner_call died digestKey hfresh reads
    exact ⟨hwf, h.same fun e => by rw [hhas, hentries, entries_ofLease, entries_onError hfresh]⟩
  | advance fault => exact locks_advance h hhas hwf hact
  | drop =>
    unfold Phase.act at hact
    cases p with
    | held lease =>
      cases hact
      exact ⟨⟨hwf.1, trivial⟩, h.same fun e => (hhas e).symm⟩
    | absent | locking | unlocking | exiting => cases hact
  | crash =>
    unfold Phase.act at hact
    cases p with
    | absent => cases hact
    | held | locking | unlocking | exiting =>
      cases hact
      exact ⟨⟨hwf.1, hdied rfl⟩, h.same fun e => (hhas e).symm⟩

end Locks

/-! ## Runs -/

/-- What every run keeps. -/
structure Inv (died : Prop) (s : State) : Prop where
  wf (o : Nat) : (s.phase o).WF died
  locks : Locks died s.kernel fun o => { e | e ∈ (s.phase o).entries }

theorem inv_init : Inv died State.init where
  wf _ := wf_ofLease none
  locks :=
    { held := fun o k d => iff_of_false (fun h => by cases h) fun h => by cases h.1
      below := fun h => by cases h
      once := fun h => by cases h
      orphan := fun h => by cases h }

theorem step_own {act : OwnerAction} (h : step digestKey s (.own o act) = some s') :
    ∃ kernel owner, (s.phase o).act digestKey o s.kernel act = some (kernel, owner) ∧
      s' = { kernel, owners := Function.update s.owners o owner } := by
  obtain ⟨⟨kernel, owner⟩, hact, rfl⟩ := Option.map_eq_some_iff.mp h
  exact ⟨kernel, owner, hact, rfl⟩

theorem inv_step {a : Action} (hinv : Inv died s) (hdied : ∀ o, a = .own o .crash → died)
    (h : step digestKey s a = some s') : Inv died s' := by
  cases a with
  | own o act =>
    obtain ⟨kernel, owner, hact, rfl⟩ := step_own h
    have hcrash (hact : act = .crash) : died := hdied o (by rw [hact])
    obtain ⟨hwf, hlocks⟩ := locks_act hinv.locks (fun _ => Iff.rfl) (hinv.wf o) hcrash hact
    refine ⟨fun o' => ?_, ?_⟩
    · by_cases ho : o' = o
      · simpa [State.phase, ho] using hwf
      · simpa [State.phase, ho] using hinv.wf o'
    · have hhas : (fun o' => { e | e ∈ (Function.update s.owners o owner o').phase.entries }) =
          Function.update (fun o' => { e | e ∈ (s.phase o').entries }) o { e | e ∈ owner.phase.entries } :=
        funext fun o' => Function.apply_update (fun _ owner => { e | e ∈ owner.phase.entries }) s.owners o owner o'
      exact hhas ▸ hlocks
  | fork o =>
    cases h
    exact ⟨hinv.wf, hinv.locks.copy fun d => Nat.le_add_right _ _⟩
  | dup d =>
    obtain ⟨kernel, hdup, rfl⟩ := Option.map_eq_some_iff.mp h
    unfold Kernel.dup at hdup
    split at hdup
    · cases hdup
    · cases hdup
      refine ⟨hinv.wf, hinv.locks.copy fun d' => ?_⟩
      rw [Function.update_apply]
      split <;> grind
  | closeCopy d =>
    obtain ⟨kernel, hclose, rfl⟩ := Option.map_eq_some_iff.mp h
    exact ⟨hinv.wf, hinv.locks.closeCopy hclose⟩

theorem inv_of_reaches (died : Prop) {ok : State → Action → Prop} (h : Reaches (step digestKey) ok State.init s)
    (hdied : ∀ s o, ok s (.own o .crash) → died) : Inv died s :=
  h.invariant inv_init fun s _ _ hinv hok hstep => inv_step hinv (fun o ha => hdied s o (ha ▸ hok)) hstep

/-! ## Exclusion -/

/-- An owner has the lock file of a key open and locked. -/
def State.Owns (s : State) (o : Nat) (key : Key) : Prop := ∃ d, (key, d) ∈ (s.phase o).entries

theorem owns_exclusive (h : Inv died s) (hown : s.Owns o key) (hown' : s.Owns o' key) : o = o' := by
  obtain ⟨d, hd⟩ := hown
  obtain ⟨d', hd'⟩ := hown'
  obtain ⟨hlocked, howner⟩ := (h.locks.held o key d).mp hd
  obtain ⟨hlocked', howner'⟩ := (h.locks.held o' key d').mp hd'
  obtain rfl := Option.some.inj (hlocked.symm.trans hlocked')
  exact Option.some.inj (howner.symm.trans howner')

/-- Two paths, as two views of the file system resolve them, are one canonical path or lead to one inode. -/
def SameMedia (view : FsView) (path : Path) (view' : FsView) (path' : Path) : Prop :=
  ∃ c c', canonicalPath view path = .ok c ∧ canonicalPath view' path' = .ok c' ∧
    (c = c' ∨ ∃ m m', view.metadata c = .ok m ∧ view'.metadata c' = .ok m' ∧ m.isFile = true ∧
      m'.isFile = true ∧
      m.dev = m'.dev ∧ m.ino = m'.ino)

variable {view view' : FsView} {path path' : Path} {ks ks' : List Key}

theorem of_resourceKeys {c : List UInt8} (h : resourceKeys digestKey view path = .ok ks)
    (hc : canonicalPath view path = .ok c) :
    digestKey (pathBytes c) ∈ ks ∧
      ∀ m, view.metadata c = .ok m → m.isFile = true → digestKey (inodeBytes m) ∈ ks := by
  unfold resourceKeys at h
  rw [hc] at h
  dsimp only [bind, Except.bind] at h
  split at h
  · rename_i m hm
    split at h
    · cases h
      refine ⟨List.mem_cons_self, fun m' hm' _ => ?_⟩
      cases hm.symm.trans hm'
      simp
    · cases h
  · rename_i hm
    cases h
    refine ⟨List.mem_cons_self, fun m' hm' _ => ?_⟩
    cases hm.symm.trans hm'
  · cases h

theorem shared_key (hsame : SameMedia view path view' path') (h : resourceKeys digestKey view path = .ok ks)
    (h' : resourceKeys digestKey view' path' = .ok ks') : ∃ key ∈ ks, key ∈ ks' := by
  obtain ⟨c, c', hc, hc', rfl | ⟨m, m', hm, hm', hfile, hfile', hdev, hino⟩⟩ := hsame
  · exact ⟨_, (of_resourceKeys h hc).1, (of_resourceKeys h' hc').1⟩
  · have hbytes : inodeBytes m = inodeBytes m' := by rw [inodeBytes, inodeBytes, hdev, hino]
    exact ⟨_, (of_resourceKeys h hc).2 m hm hfile, hbytes ▸ (of_resourceKeys h' hc').2 m' hm' hfile'⟩

/-- **Whatever the interleaving of calls, drops, deaths and inherited descriptors: while one owner holds a path's keys,
no other owner holds those of the same media, be it under the same path or under another name of the inode.** -/
theorem leases_exclusive {ok : State → Action → Prop} (hreach : Reaches (step digestKey) ok State.init s)
    (hne : o ≠ o')
    (hsame : SameMedia view path view' path') (h : resourceKeys digestKey view path = .ok ks)
    (h' : resourceKeys digestKey view' path' = .ok ks') (hown : ∀ key ∈ ks, s.Owns o key) : ∃ key ∈ ks',
    ¬s.Owns o' key := by
  obtain ⟨key, hkey, hkey'⟩ := shared_key hsame h h'
  refine ⟨key, hkey', fun hown' => hne ?_⟩
  exact owns_exclusive (inv_of_reaches True hreach fun _ _ _ => trivial) (hown key hkey) hown'

/-- The state after the first `n` actions of the sample run. -/
def sampleState (n : Nat) : State := (runs (step sampleDigest) State.init (sampleRun.take n)).getD State.init

theorem runs_sampleState {n : Nat} (h : (runs (step sampleDigest) State.init (sampleRun.take n)).isSome = true) :
    runs (step sampleDigest) State.init (sampleRun.take n) = some (sampleState n) := by
  obtain ⟨s, hs⟩ := Option.isSome_iff_exists.mp h
  rw [sampleState, hs, Option.getD_some]

theorem sampleState_reached :
    Reaches (step sampleDigest) (fun _ a => ∀ o, a ≠ .own o .crash) State.init (sampleState 15) := by
  refine Reaches.start.run (fun _ a ha => ?_) (runs_sampleState (by decide +kernel))
  have hcall : a = .own 0 (.call .acquire readsA) ∨ a = .own 0 (.call .replace readsB) ∨
      a = .own 1 (.call .acquire readsA) ∨ a = .own 0 (.advance none) ∨ a = .own 1 (.advance none) := by
    have hmem := List.mem_of_mem_take ha
    simp only [sampleRun, sampleAdvances, List.mem_append, List.mem_cons, List.mem_replicate] at hmem
    tauto
  rcases hcall with rfl | rfl | rfl | rfl | rfl <;> simp

theorem entries_sampleState : ((sampleState 15).phase 0).entries = [(sampleKeyB, 2), (sampleKeyInode, 1)] := by
  decide +kernel

/-- The second owner does not get a hard link of the file that the first one has leased. -/
theorem leases_exclusive_hard_link : ((sampleState 15).owners 1).result = some (.error .wouldBlock) ∧
    ∃ key ∈ [sampleKeyA, sampleKeyInode], ¬(sampleState 15).Owns 1 key := by
  have hsame : SameMedia sampleView [.rootDir, .normal [98]] sampleView [.rootDir, .normal [97]] :=
    ⟨[47, 98], [47, 97], rfl, rfl, .inr ⟨_, _, rfl, rfl, rfl, rfl, rfl, rfl⟩⟩
  have hkeys : resourceKeys sampleDigest sampleView [.rootDir, .normal [98]] =
      .ok [sampleKeyB, sampleKeyInode] := by decide +kernel
  refine ⟨by decide +kernel, leases_exclusive (o := 0) sampleState_reached (by decide) hsame hkeys (by decide +kernel)
    fun key hkey => ?_⟩
  rw [State.Owns, entries_sampleState]
  simp only [List.mem_cons, List.not_mem_nil, or_false] at hkey
  obtain rfl | rfl := hkey
  · exact ⟨2, List.mem_cons_self⟩
  · exact ⟨1, List.mem_cons_of_mem _ List.mem_cons_self⟩

/-- **In a run in which no process dies, the locked keys are exactly those the owners hold: what a failed call added and
what a lease gave up or dropped is free at once, also while inherited descriptors stay open.** -/
theorem locks_accounted (hreach : Reaches (step digestKey) (fun _ a => ∀ o, a ≠ .own o .crash) State.init s) :
    s.kernel.locked k = some d ↔ ∃ o, (k, d) ∈ (s.phase o).entries := by
  have hlocks := (inv_of_reaches False hreach fun _ o hok => hok o rfl).locks
  refine ⟨fun hk => ?_, fun ⟨o, hmem⟩ => ((hlocks.held o k d).mp hmem).1⟩
  cases hown : s.kernel.owner d with
  | none => exact (hlocks.orphan hk hown).1.elim
  | some o => exact ⟨o, (hlocks.held o k d).mpr ⟨hk, hown⟩⟩

/-- The inode stays locked. The key of `/a` is free again, so no owner has a description of it: the first one gave it
up, and so did the failed call of the second one. -/
theorem locks_accounted_sample : (sampleState 15).kernel.locked sampleKeyInode = some 1 ∧
    ∀ o d, (sampleKeyA, d) ∉ ((sampleState 15).phase o).entries := by
  refine ⟨(locks_accounted sampleState_reached).mpr ⟨0, ?_⟩, fun o d hmem => ?_⟩
  · rw [entries_sampleState]
    exact List.mem_cons_of_mem _ List.mem_cons_self
  · have hfree : (sampleState 15).kernel.locked sampleKeyA = none := by decide +kernel
    have hlocked := (locks_accounted sampleState_reached).mpr ⟨o, hmem⟩
    rw [hfree] at hlocked
    cases hlocked

end BridgeVm.Media
