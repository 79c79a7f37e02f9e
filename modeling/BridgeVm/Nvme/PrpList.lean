import BridgeVm.Nvme.DataPath

/-!
# PRP lists (`prp_spans_into`)

- `PrpReads`: what the PRP rules read from a command, list page by list page, with no bound on the pages;
- `prpSpansAppend`: the function with the caller's spans and buffer; it is `prpSpansInto` behind these
  (`prpSpansAppend_eq`);
- it accepts exactly what the rules accept, and restores the caller's spans otherwise (`prp_spans_iff`): the page budget
  refuses no list (`prpList_of_reads`).
-/

namespace BridgeVm.Nvme

variable {mem : GuestMemory} {gpa remaining len pages n idx next : Nat} {entries init : List Nat}
  {spans rest out s : List (Nat × Nat)} {cmd : SubmissionEntry}

/-! ## The rules -/

/-- What a list entry may name: not zero, and a page boundary. -/
def PageAddress (entry : Nat) : Prop := entry ≠ 0 ∧ entry % pageSize = 0

instance : DecidablePred PageAddress := fun entry => inferInstanceAs (Decidable (entry ≠ 0 ∧ entry % pageSize = 0))

/-- A page for each entry, the last one as far as it is needed. -/
def pageSpans : List Nat → Nat → List (Nat × Nat)
  | [], _ => []
  | entry :: entries, remaining => (entry, min remaining pageSize) :: pageSpans entries (remaining - pageSize)

/-- How many entries a list page holds from `gpa` on. -/
def entryRoom (gpa : Nat) : Nat := (pageSize - gpa % pageSize) / 8

/-- The first `count` entries at `gpa`, where the memory is readable. -/
def prpEntriesAt (mem : GuestMemory) (gpa count : Nat) : Option (List Nat) :=
  (mem.readBytes gpa (count * 8)).map fun raw => (List.range count).map fun i => leField raw (8 * i) 8

/-- The list at `gpa` gives these spans for what remains. -/
inductive ListReads (mem : GuestMemory) : Nat → Nat → List (Nat × Nat) → Prop
  /-- The page holds the rest of the entries. -/
  | last {gpa remaining : Nat} {entries : List Nat} (haligned : gpa % 8 = 0)
    (hroom : pagesFor remaining ≤ entryRoom gpa)
      (hread : prpEntriesAt mem gpa (pagesFor remaining) = some entries) (hdata : ∀ e ∈ entries, PageAddress e) :
      ListReads mem gpa remaining (pageSpans entries remaining)
  /-- More pages remain than it holds: its last entry names the next list page. -/
  | chain {gpa remaining next : Nat} {entries : List Nat} {rest : List (Nat × Nat)} (haligned : gpa % 8 = 0)
      (hroom : entryRoom gpa < pagesFor remaining)
      (hread : prpEntriesAt mem gpa (entryRoom gpa) = some (entries ++ [next])) (hdata : ∀ e ∈ entries,
        PageAddress e)
      (hnext : PageAddress next) (hrest : ListReads mem next (remaining - entries.length * pageSize) rest) :
      ListReads mem gpa remaining (pageSpans entries remaining ++ rest)

/-- The first page's part of a transfer. -/
def firstLen (cmd : SubmissionEntry) (len : Nat) : Nat := min len (pageSize - cmd.prp1 % pageSize)

/-- A command's PRP pointers give these spans for `len` bytes. -/
inductive PrpReads (mem : GuestMemory) (cmd : SubmissionEntry) (len : Nat) : List (Nat × Nat) → Prop
  | empty (hlen : len = 0) : PrpReads mem cmd len []
  | first (hlen : 0 < len) (hprp1 : cmd.prp1 ≠ 0) (hfits : len = firstLen cmd len) : PrpReads mem cmd len
    [(cmd.prp1, len)]
  | second (hprp1 : cmd.prp1 ≠ 0) (hmore : firstLen cmd len < len) (hfits : len - firstLen cmd len ≤ pageSize)
      (hprp2 : PageAddress cmd.prp2) :
      PrpReads mem cmd len [(cmd.prp1, firstLen cmd len), (cmd.prp2, len - firstLen cmd len)]
  | list {rest : List (Nat × Nat)} (hprp1 : cmd.prp1 ≠ 0) (hmore : pageSize < len - firstLen cmd len)
      (hprp2 : cmd.prp2 ≠ 0) (hlist : ListReads mem cmd.prp2 (len - firstLen cmd len) rest) :
      PrpReads mem cmd len ((cmd.prp1, firstLen cmd len) :: rest)

/-! ## The walk -/

/-- What becomes of a list page: the function returns, or goes on to the next page. -/
inductive PageWalk
  | returned (ok : Bool) (out : List (Nat × Nat))
  | chained (listGpa remaining : Nat) (out : List (Nat × Nat))

/-- The entries of a list page; a failure truncates the spans to `start`. -/
def prpPageAppend (start entriesInPage : Nat) : Nat → List Nat → Nat → List (Nat × Nat) → PageWalk
  | _, [], _, out => .returned false (out.take start)
  | idx, entry :: entries, remaining, out =>
    if entry = 0 then .returned false (out.take start)
    else if idx = entriesInPage - 1 ∧ pageSize < remaining then
      if entry % pageSize ≠ 0 then .returned false (out.take start) else .chained entry remaining out
    else if entry % pageSize ≠ 0 then .returned false (out.take start)
    else
      let spanLen := min remaining pageSize
      let out := out ++ [(entry, spanLen)]
      if remaining - spanLen = 0 then .returned true out
      else prpPageAppend start entriesInPage (idx + 1) entries (remaining - spanLen) out

/-- The loop over list pages, with `list_pages_left`. -/
def prpListAppend (mem : GuestMemory) (scratch start : Nat) : Nat → Nat → Nat → List (Nat × Nat) →
    Bool × List (Nat × Nat)
  | listPagesLeft, listGpa, remaining, out =>
    if remaining = 0 then (true, out)
    else
      let listOffset := listGpa % pageSize
      if listOffset % 8 ≠ 0 then (false, out.take start)
      else
        match listPagesLeft with
        | 0 => (false, out.take start)
        | listPagesLeft + 1 =>
          let entriesInPage := (pageSize - listOffset) / 8
          let count := min (pagesFor remaining) entriesInPage
          if scratch < count * 8 then (false, out.take start)
          else
            match prpEntriesAt mem listGpa count with
            | none => (false, out.take start)
            | some raw =>
              match prpPageAppend start entriesInPage 0 raw remaining out with
              | .returned ok out => (ok, out)
              | .chained listGpa remaining out => prpListAppend mem scratch start listPagesLeft listGpa remaining out

/-- `prp_spans_into`, appending to `out`, with a buffer of `scratch` bytes. -/
def prpSpansAppend (cmd : SubmissionEntry) (len : Nat) (mem : GuestMemory) (out : List (Nat × Nat)) (scratch : Nat) :
    Bool × List (Nat × Nat) :=
  let start := out.length
  if len = 0 then (true, out)
  else if cmd.prp1 = 0 then (false, out)
  else
    let firstLen := min len (pageSize - cmd.prp1 % pageSize)
    let out := out ++ [(cmd.prp1, firstLen)]
    let remaining := len - firstLen
    if remaining = 0 then (true, out)
    else if cmd.prp2 = 0 then (false, out.take start)
    else if remaining ≤ pageSize then
      if cmd.prp2 % pageSize ≠ 0 then (false, out.take start) else (true, out ++ [(cmd.prp2, remaining)])
    else prpListAppend mem scratch start (pagesFor remaining + 1) cmd.prp2 remaining out

/-! ## One list page -/

theorem pagesFor_of_le (hpos : 0 < remaining) (hle : remaining ≤ pageSize) : pagesFor remaining = 1 := by
  unfold pagesFor pageSize at *
  omega

theorem pagesFor_of_lt (h : pageSize < remaining) : pagesFor remaining = pagesFor (remaining - pageSize) + 1 := by
  unfold pagesFor pageSize at *
  omega

theorem pagesFor_pos (hpos : 0 < remaining) : 0 < pagesFor remaining := by
  unfold pagesFor pageSize
  omega

/-- A page that holds the rest of the entries ends the walk. -/
theorem prpEntries_last (hlen : entries.length = pagesFor remaining) (hroom : idx + pagesFor remaining ≤ n)
    (hpos : 0 < remaining) : prpEntries n idx entries remaining spans =
      if ∀ e ∈ entries, PageAddress e then .done (spans ++ pageSpans entries remaining) else .fail := by
  induction entries generalizing idx remaining spans with
  | nil =>
    have := pagesFor_pos hpos
    rw [List.length_nil] at hlen
    omega
  | cons e entries ih =>
    rw [List.length_cons] at hlen
    unfold prpEntries
    by_cases hzero : e = 0
    · rw [if_pos hzero, if_neg fun hall => (hall e List.mem_cons_self).1 hzero]
    rw [if_neg hzero]
    rcases Nat.lt_or_ge pageSize remaining with hmore | hend
    · have hsplit := pagesFor_of_lt hmore
      have hrest : 0 < remaining - pageSize := Nat.sub_pos_of_lt hmore
      have := pagesFor_pos hrest
      rw [if_neg (by omega)]
      by_cases halign : e % pageSize = 0
      · rw [if_neg (not_not.2 halign)]
        dsimp only
        rw [Nat.min_eq_right hmore.le, if_neg (by omega), ih (by omega) (by omega) hrest]
        simp only [List.forall_mem_cons, pageSpans, Nat.min_eq_right hmore.le, List.append_assoc, List.singleton_append]
        have haddress : PageAddress e := ⟨hzero, halign⟩
        simp only [haddress, true_and]
      · rw [if_pos halign, if_neg fun hall => halign (hall e List.mem_cons_self).2]
    · have hone := pagesFor_of_le hpos hend
      obtain rfl : entries = [] := List.length_eq_zero_iff.1 (by omega)
      rw [if_neg (by omega)]
      by_cases halign : e % pageSize = 0
      · rw [if_neg (not_not.2 halign)]
        dsimp only
        rw [Nat.min_eq_left hend, Nat.sub_self, if_pos rfl, if_pos]
        · simp [pageSpans, Nat.min_eq_left hend]
        · exact List.forall_mem_singleton.2 ⟨hzero, halign⟩
      · rw [if_pos halign, if_neg fun hall => halign (hall e List.mem_cons_self).2]

/-- A page with fewer entries than pages remain ends in a chain pointer. -/
theorem prpEntries_chain (hlen : idx + init.length + 1 = n) (hmore : init.length + 1 < pagesFor remaining) :
    prpEntries n idx (init ++ [next]) remaining spans =
      if (∀ e ∈ init, PageAddress e) ∧ PageAddress next then
        .chain next (spans ++ pageSpans init remaining) (remaining - init.length * pageSize)
      else .fail := by
  have hlarge : pageSize < remaining := by
    unfold pagesFor pageSize at *
    omega
  induction init generalizing idx remaining spans with
  | nil =>
    rw [List.length_nil, Nat.add_zero] at hlen
    simp only [List.nil_append, List.not_mem_nil, false_implies, implies_true, true_and, pageSpans, List.append_nil,
      List.length_nil, Nat.zero_mul, Nat.sub_zero]
    unfold prpEntries
    by_cases hzero : next = 0
    · rw [if_pos hzero, if_neg fun h => h.1 hzero]
    · rw [if_neg hzero, if_pos ⟨hlen, hlarge⟩]
      by_cases halign : next % pageSize = 0
      · rw [if_neg (not_not.2 halign), if_pos ⟨hzero, halign⟩]
      · rw [if_pos halign, if_neg fun h => halign h.2]
  | cons e init ih =>
    rw [List.length_cons] at hlen hmore
    have hsplit := pagesFor_of_lt hlarge
    rw [List.cons_append]
    unfold prpEntries
    by_cases hzero : e = 0
    · rw [if_pos hzero, if_neg fun h => (h.1 e List.mem_cons_self).1 hzero]
    rw [if_neg hzero, if_neg (by omega)]
    by_cases halign : e % pageSize = 0
    · rw [if_neg (not_not.2 halign)]
      dsimp only
      have hrest : pageSize < remaining - pageSize := by
        unfold pagesFor pageSize at *
        omega
      rw [Nat.min_eq_right hlarge.le, if_neg (by omega), ih (by omega) (by omega) hrest]
      have haddress : PageAddress e := ⟨hzero, halign⟩
      simp only [List.forall_mem_cons, haddress, true_and, pageSpans, Nat.min_eq_right hlarge.le, List.append_assoc,
        List.singleton_append, List.length_cons, Nat.succ_mul, Nat.sub_sub, Nat.add_comm pageSize]
    · rw [if_pos halign, if_neg fun h => halign (h.1 e List.mem_cons_self).2]

/-! ## The list -/

theorem mod_pageSize_mod (gpa : Nat) : gpa % pageSize % 8 = gpa % 8 := Nat.mod_mod_of_dvd gpa ⟨512, rfl⟩

theorem length_prpEntriesAt {count : Nat} (h : prpEntriesAt mem gpa count = some entries) : entries.length = count := by
  obtain ⟨raw, -, rfl⟩ := Option.map_eq_some_iff.1 h
  rw [List.length_map, List.length_range]

theorem prpList_succ (mem : GuestMemory) (pages gpa remaining : Nat) (spans : List (Nat × Nat)) :
    prpList mem (pages + 1) gpa remaining spans =
      if gpa % 8 ≠ 0 then none
      else (prpEntriesAt mem gpa (min (pagesFor remaining) (entryRoom gpa))).bind fun entries =>
        match prpEntries (entryRoom gpa) 0 entries remaining spans with
        | .fail => none
        | .done spans => some spans
        | .chain gpa spans remaining => prpList mem pages gpa remaining spans := by
  rw [prpList, mod_pageSize_mod]
  unfold prpEntriesAt entryRoom
  split
  · rfl
  · dsimp only
    cases mem.readBytes gpa (min (pagesFor remaining) ((pageSize - gpa % pageSize) / 8) * 8) <;> rfl

theorem entryRoom_pos (haligned : gpa % 8 = 0) : 0 < entryRoom gpa := by
  have hmod := mod_pageSize_mod gpa
  unfold entryRoom pageSize at *
  omega

theorem entryRoom_start (h : gpa % pageSize = 0) : entryRoom gpa = 512 := by
  unfold entryRoom
  rw [h]
  rfl

theorem after_chain {j : Nat} (h : j + 1 < pagesFor remaining) :
    0 < remaining - j * pageSize ∧ pagesFor (remaining - j * pageSize) = pagesFor remaining - j := by
  unfold pagesFor pageSize at *
  omega

/-- What the walk accepts is a list the rules read. -/
theorem listReads_of_prpList (h : prpList mem pages gpa remaining spans = some s) (hpos : 0 < remaining) :
    ∃ rest, s = spans ++ rest ∧ ListReads mem gpa remaining rest := by
  induction pages generalizing gpa remaining spans with
  | zero => cases h
  | succ pages ih =>
    rw [prpList_succ] at h
    split at h
    · cases h
    rename_i haligned
    have haligned : gpa % 8 = 0 := not_not.1 haligned
    obtain ⟨entries, hread, hpage⟩ := Option.bind_eq_some_iff.1 h
    have hlen := length_prpEntriesAt hread
    rcases Nat.lt_or_ge (entryRoom gpa) (pagesFor remaining) with hchain | hlast
    · rw [Nat.min_eq_right hchain.le] at hread hlen
      have hroom := entryRoom_pos haligned
      obtain ⟨init, next, rfl⟩ := List.eq_nil_or_concat entries |>.resolve_left fun hnil => by
        rw [hnil, List.length_nil] at hlen
        omega
      rw [List.concat_eq_append] at hread hpage hlen
      rw [List.length_append, List.length_singleton] at hlen
      rw [prpEntries_chain (by omega) (by omega)] at hpage
      split_ifs at hpage with hentries
      · obtain ⟨rest, hs, hrest⟩ := ih hpage (after_chain (by omega)).1
        refine ⟨_, ?_, .chain haligned hchain hread hentries.1 hentries.2 hrest⟩
        rw [hs, List.append_assoc]
    · rw [Nat.min_eq_left hlast] at hread hlen
      rw [prpEntries_last hlen (by omega) hpos] at hpage
      split_ifs at hpage with hdata
      · cases hpage
        exact ⟨_, rfl, .last haligned hlast hread hdata⟩

/-- The budget covers a list the rules read: one page for each page of data, and one more for a list that starts inside
its page. -/
theorem prpList_of_reads (h : ListReads mem gpa remaining rest) (hpos : 0 < remaining)
    (hpages : pagesFor remaining + (if gpa % pageSize = 0 then 0 else 1) ≤ pages) (spans : List (Nat × Nat)) :
    prpList mem pages gpa remaining spans = some (spans ++ rest) := by
  induction h generalizing pages spans with
  | @last gpa remaining entries haligned hroom hread hdata =>
    have := pagesFor_pos hpos
    obtain ⟨pages, rfl⟩ : ∃ k, pages = k + 1 := ⟨pages - 1, by omega⟩
    rw [prpList_succ, if_neg (not_not.2 haligned), Nat.min_eq_left hroom, hread, Option.bind_some,
      prpEntries_last (length_prpEntriesAt hread) (by omega) hpos, if_pos hdata]
  | @chain gpa remaining next entries rest haligned hroom hread hdata hnext _ ih =>
    have := pagesFor_pos hpos
    obtain ⟨pages, rfl⟩ : ∃ k, pages = k + 1 := ⟨pages - 1, by omega⟩
    have hlen := length_prpEntriesAt hread
    rw [List.length_append, List.length_singleton] at hlen
    rw [prpList_succ, if_neg (not_not.2 haligned), Nat.min_eq_right hroom.le, hread, Option.bind_some,
      prpEntries_chain (by omega) (by omega), if_pos ⟨hdata, hnext⟩]
    dsimp only
    have hbefore : entries.length + 1 < pagesFor remaining := by omega
    obtain ⟨hmore, hleft⟩ := after_chain hbefore
    rw [ih hmore ?_, List.append_assoc]
    -- the first page may hold a chain pointer alone; every later one starts on its boundary
    rw [if_pos hnext.2, hleft]
    by_cases hstart : gpa % pageSize = 0
    · have hfull := entryRoom_start hstart
      rw [if_pos hstart] at hpages
      omega
    · rw [if_neg hstart] at hpages
      omega

/-! ## A command's pointers -/

theorem prpSpansInto_iff : prpSpansInto cmd len mem = some spans ↔ PrpReads mem cmd len spans := by
  have hfirst : firstLen cmd len = min len (pageSize - cmd.prp1 % pageSize) := rfl
  have hle : firstLen cmd len ≤ len := Nat.min_le_left _ _
  have hoffset : cmd.prp1 % pageSize < pageSize := Nat.mod_lt _ (by decide)
  constructor
  · intro h
    unfold prpSpansInto at h
    dsimp only at h
    rw [← hfirst] at h
    split_ifs at h with hempty hprp1 hdone hprp2 hshort halign
    · cases h
      exact .empty hempty
    · cases h
      have hall : len = firstLen cmd len := by omega
      rw [← hall]
      exact .first (Nat.pos_of_ne_zero hempty) hprp1 hall
    · cases h
      exact .second hprp1 (by omega) hshort ⟨hprp2, not_not.1 halign⟩
    · obtain ⟨rest, hs, hrest⟩ := listReads_of_prpList h (Nat.pos_of_ne_zero hdone)
      rw [hs]
      exact .list hprp1 (Nat.lt_of_not_le hshort) hprp2 hrest
  · intro h
    unfold prpSpansInto
    dsimp only
    rw [← hfirst]
    cases h with
    | empty hlen => rw [if_pos hlen]
    | first hlen hprp1 hfits => rw [if_neg hlen.ne', if_neg hprp1, if_pos (by omega), ← hfits]
    | second hprp1 hmore hfits hprp2 =>
      rw [if_neg (by omega), if_neg hprp1, if_neg (by omega), if_neg hprp2.1, if_pos hfits, if_neg (not_not.2 hprp2.2)]
    | list hprp1 hmore hprp2 hlist =>
      have hpos : 0 < len - firstLen cmd len := Nat.zero_lt_of_lt hmore
      rw [if_neg (by omega), if_neg hprp1, if_neg (by omega), if_neg hprp2, if_neg (Nat.not_le_of_lt hmore),
        prpList_of_reads hlist hpos ?_ [(cmd.prp1, firstLen cmd len)]]
      · rfl
      · split <;> omega

/-! ## What the spans cover -/

/-- How many bytes the spans hold. -/
def spansLen (spans : List (Nat × Nat)) : Nat := (spans.map fun span => span.2).sum

theorem spansLen_append (spans rest : List (Nat × Nat)) :
    spansLen (spans ++ rest) = spansLen spans + spansLen rest := by
  simp [spansLen]

theorem spansLen_pageSpans_last (h : entries.length = pagesFor remaining) :
    spansLen (pageSpans entries remaining) = remaining := by
  induction entries generalizing remaining with
  | nil =>
    have hzero : remaining = 0 := by
      unfold pagesFor pageSize at h
      rw [List.length_nil] at h
      omega
    rw [hzero]
    rfl
  | cons e entries ih =>
    rw [List.length_cons] at h
    have hrest : entries.length = pagesFor (remaining - pageSize) := by
      unfold pagesFor pageSize at *
      omega
    have htail := ih hrest
    unfold spansLen at htail ⊢
    simp only [pageSpans, List.map_cons, List.sum_cons, htail]
    omega

theorem spansLen_pageSpans_full (h : entries.length * pageSize ≤ remaining) :
    spansLen (pageSpans entries remaining) = entries.length * pageSize := by
  induction entries generalizing remaining with
  | nil => simp [pageSpans, spansLen]
  | cons e entries ih =>
    rw [List.length_cons, Nat.succ_mul] at h ⊢
    have hrest : entries.length * pageSize ≤ remaining - pageSize := by omega
    have htail := ih hrest
    unfold spansLen at htail ⊢
    simp only [pageSpans, List.map_cons, List.sum_cons, htail]
    omega

/-- A span of one page, from its start. -/
def PageSpan (span : Nat × Nat) : Prop := span.1 % pageSize = 0 ∧ span.2 ≤ pageSize

theorem pageSpan_of_mem (hdata : ∀ e ∈ entries, PageAddress e) : ∀ span ∈ pageSpans entries remaining,
    PageSpan span := by
  induction entries generalizing remaining with
  | nil => nofun
  | cons e entries ih =>
    obtain ⟨he, hrest⟩ := List.forall_mem_cons.1 hdata
    exact List.forall_mem_cons.2 ⟨⟨he.2, Nat.min_le_right _ _⟩, ih hrest⟩

theorem ListReads.covers (h : ListReads mem gpa remaining rest) :
    spansLen rest = remaining ∧ ∀ span ∈ rest, PageSpan span := by
  induction h with
  | last haligned hroom hread hdata => exact ⟨spansLen_pageSpans_last (length_prpEntriesAt hread),
    pageSpan_of_mem hdata⟩
  | @chain gpa remaining next entries rest haligned hroom hread hdata hnext hrest ih =>
    have hlen := length_prpEntriesAt hread
    rw [List.length_append, List.length_singleton] at hlen
    have hbefore : entries.length + 1 < pagesFor remaining := by omega
    have hmore := (after_chain hbefore).1
    refine ⟨?_, List.forall_mem_append.2 ⟨pageSpan_of_mem hdata, ih.2⟩⟩
    rw [spansLen_append, ih.1, spansLen_pageSpans_full (by omega)]
    omega

/-- The spans hold `len` bytes, each in one page, and all but the first start theirs. -/
structure Covers (spans : List (Nat × Nat)) (len : Nat) : Prop where
  total : spansLen spans = len
  inPage : ∀ span ∈ spans, span.1 % pageSize + span.2 ≤ pageSize
  starts : ∀ span ∈ spans.tail, span.1 % pageSize = 0

theorem PageSpan.inPage {span : Nat × Nat} (h : PageSpan span) : span.1 % pageSize + span.2 ≤ pageSize := by
  rw [h.1, Nat.zero_add]
  exact h.2

theorem PrpReads.covers (h : PrpReads mem cmd len spans) : Covers spans len := by
  have hfirst : cmd.prp1 % pageSize + firstLen cmd len ≤ pageSize := by
    have hoffset : cmd.prp1 % pageSize < pageSize := Nat.mod_lt _ (by decide)
    unfold firstLen
    omega
  cases h with
  | empty hlen => exact ⟨hlen.symm, nofun, nofun⟩
  | first hlen hprp1 hfits =>
    refine ⟨by simp [spansLen], List.forall_mem_singleton.2 ?_, nofun⟩
    rw [← hfits] at hfirst
    exact hfirst
  | second hprp1 hmore hfits hprp2 =>
    have hspan : PageSpan (cmd.prp2, len - firstLen cmd len) := ⟨hprp2.2, hfits⟩
    refine ⟨?_, List.forall_mem_cons.2 ⟨hfirst, List.forall_mem_singleton.2 hspan.inPage⟩, ?_⟩
    · simp [spansLen]
      omega
    · exact List.forall_mem_singleton.2 hspan.1
  | @list rest hprp1 hmore hprp2 hlist =>
    obtain ⟨htotal, hpages⟩ := hlist.covers
    refine ⟨?_, List.forall_mem_cons.2 ⟨hfirst, fun span hspan => (hpages span hspan).inPage⟩, fun span hspan =>
      (hpages span hspan).1⟩
    show spansLen ([(cmd.prp1, firstLen cmd len)] ++ rest) = len
    rw [spansLen_append, htotal]
    simp [spansLen]
    omega

/-! ## The caller's spans and buffer -/

/-- A list page behind the caller's spans. -/
def PrpPage.behind (out : List (Nat × Nat)) : PrpPage → PageWalk
  | .fail => .returned false out
  | .done spans => .returned true (out ++ spans)
  | .chain gpa spans remaining => .chained gpa remaining (out ++ spans)

/-- An accepted walk appends its spans; a refused one restores what was there. -/
def appended (out : List (Nat × Nat)) : Option (List (Nat × Nat)) → Bool × List (Nat × Nat)
  | none => (false, out)
  | some spans => (true, out ++ spans)

theorem prpPageAppend_eq (out : List (Nat × Nat)) (hn : 0 < n) (idx remaining : Nat) (entries : List Nat)
    (spans : List (Nat × Nat)) : prpPageAppend out.length n idx entries remaining (out ++ spans) =
      (prpEntries n idx entries remaining spans).behind out := by
  induction entries generalizing idx remaining spans with
  | nil =>
    simp only [prpPageAppend, prpEntries, List.take_left]
    rfl
  | cons e entries ih =>
    have hlast : idx = n - 1 ↔ idx + 1 = n := by omega
    unfold prpPageAppend prpEntries
    simp only [List.take_left, hlast, List.append_assoc]
    split_ifs <;> first | rfl | exact ih _ _ _

theorem remaining_of_chain (h : prpEntries n idx entries remaining spans = .chain gpa s len) : pageSize < len := by
  induction entries generalizing idx remaining spans with
  | nil => cases h
  | cons e entries ih =>
    unfold prpEntries at h
    dsimp only at h
    split_ifs at h with hzero hlast halign
    · cases h
      exact hlast.2
    · exact ih h

theorem prpListAppend_eq {scratch : Nat} (hscratch : pageSize ≤ scratch) (out : List (Nat × Nat)) (pages gpa : Nat)
    (hpos : 0 < remaining) (spans : List (Nat × Nat)) :
    prpListAppend mem scratch out.length pages gpa remaining (out ++ spans) =
      appended out (prpList mem pages gpa remaining spans) := by
  induction pages generalizing gpa remaining spans with
  | zero =>
    unfold prpListAppend prpList
    rw [if_neg hpos.ne', List.take_left]
    exact ite_self _
  | succ pages ih =>
    rw [prpList_succ]
    unfold prpListAppend
    rw [if_neg hpos.ne', List.take_left]
    dsimp only
    rw [mod_pageSize_mod]
    by_cases haligned : gpa % 8 = 0
    · have hroom := entryRoom_pos haligned
      have hfits : ¬ scratch < min (pagesFor remaining) (entryRoom gpa) * 8 := by
        have hle : entryRoom gpa * 8 ≤ pageSize := by
          unfold entryRoom
          omega
        omega
      rw [if_neg (not_not.2 haligned), if_neg (not_not.2 haligned)]
      change (if scratch < min (pagesFor remaining) (entryRoom gpa) * 8 then _ else _) = _
      rw [if_neg hfits]
      change (match prpEntriesAt mem gpa (min (pagesFor remaining) (entryRoom gpa)) with
        | none => _
        | some raw => _) = _
      cases hread : prpEntriesAt mem gpa (min (pagesFor remaining) (entryRoom gpa)) with
      | none => rfl
      | some raw =>
        rw [Option.bind_some]
        change (match prpPageAppend out.length (entryRoom gpa) 0 raw remaining (out ++ spans) with
          | .returned ok out => _
          | .chained listGpa remaining out => _) = _
        rw [prpPageAppend_eq out hroom]
        cases hpage : prpEntries (entryRoom gpa) 0 raw remaining spans with
        | fail => rfl
        | done s => rfl
        | chain next s left => exact ih next (Nat.zero_lt_of_lt (remaining_of_chain hpage)) s
    · rw [if_pos haligned, if_pos haligned]
      rfl

theorem prpSpansAppend_eq {scratch : Nat} (hscratch : pageSize ≤ scratch) (cmd : SubmissionEntry) (len : Nat)
    (mem : GuestMemory) (out : List (Nat × Nat)) :
    prpSpansAppend cmd len mem out scratch = appended out (prpSpansInto cmd len mem) := by
  unfold prpSpansAppend prpSpansInto
  simp only [List.take_left, List.append_assoc]
  split_ifs with hempty hprp1 hdone hprp2 hshort halign
  · exact congrArg _ (List.append_nil out).symm
  · rfl
  · rfl
  · rfl
  · rfl
  · rfl
  · exact prpListAppend_eq hscratch out _ _ (Nat.pos_of_ne_zero hdone) _

/-- **PRP lists.** With a buffer of a page, the function accepts exactly what the rules read; it appends spans that
cover the transfer, and restores the caller's spans when it refuses. -/
theorem prp_spans_iff (cmd : SubmissionEntry) (len : Nat) (mem : GuestMemory) (out : List (Nat × Nat)) {scratch : Nat}
    (hscratch : pageSize ≤ scratch) :
    ((prpSpansAppend cmd len mem out scratch).1 = true ↔ ∃ spans, PrpReads mem cmd len spans) ∧
      (∀ spans, PrpReads mem cmd len spans → prpSpansAppend cmd len mem out scratch = (true, out ++ spans)) ∧
      ((prpSpansAppend cmd len mem out scratch).1 = true →
        ∃ spans, (prpSpansAppend cmd len mem out scratch).2 = out ++ spans ∧ Covers spans len) ∧
      ((prpSpansAppend cmd len mem out scratch).1 = false → (prpSpansAppend cmd len mem out scratch).2 = out) := by
  rw [prpSpansAppend_eq hscratch]
  have hreads : ∀ spans, prpSpansInto cmd len mem = some spans ↔ PrpReads mem cmd len spans :=
    fun _ => prpSpansInto_iff
  cases h : prpSpansInto cmd len mem with
  | none =>
    have hnone : ∀ spans, ¬ PrpReads mem cmd len spans := fun spans hspans => by
      have hsome := (hreads spans).2 hspans
      rw [h] at hsome
      cases hsome
    exact ⟨⟨nofun, fun ⟨spans, hspans⟩ => absurd hspans (hnone spans)⟩,
      fun spans hspans => absurd hspans (hnone spans),
      nofun, fun _ => rfl⟩
  | some spans =>
    have hspans := (hreads spans).1 h
    refine ⟨⟨fun _ => ⟨spans, hspans⟩, fun _ => rfl⟩, fun spans' hspans' => ?_,
      fun _ => ⟨spans, rfl, hspans.covers⟩, nofun⟩
    have hsame := (hreads spans').2 hspans'
    rw [h] at hsame
    cases hsame
    rfl

/-- A list that starts at the last entry of its page, which names the page with the two data entries. -/
def chainedList : GuestMemory where
  bytes a := if a = 0x2ff9 then 0x30 else if a = 0x3002 then 1 else if a = 0x300a then 2 else 0
  readable gpa len := gpa + len ≤ 0x4000
  writable _ _ := false

/-- A transfer of three pages over that list. -/
def threePages : SubmissionEntry := { SubmissionEntry.fromBytes [] with prp1 := 0x5000, prp2 := 0x2ff8 }

theorem prp_spans_chained : PrpReads chainedList threePages 0x3000 [(0x5000, 0x1000), (0x10000, 0x1000),
    (0x20000, 0x1000)] ∧
    prpSpansAppend threePages 0x3000 chainedList [(1, 2)] pageSize =
      (true, [(1, 2), (0x5000, 0x1000), (0x10000, 0x1000), (0x20000, 0x1000)]) := by
  have hreads : PrpReads chainedList threePages 0x3000 [(0x5000, 0x1000), (0x10000, 0x1000), (0x20000, 0x1000)] :=
    prpSpansInto_iff.1 (by decide +kernel)
  exact ⟨hreads, (prp_spans_iff threePages 0x3000 chainedList [(1, 2)] (Nat.le_refl pageSize)).2.1 _ hreads⟩

end BridgeVm.Nvme
