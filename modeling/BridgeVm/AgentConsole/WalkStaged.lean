import BridgeVm.AgentConsole.FileDrop
import BridgeVm.Lib.Text
import Mathlib.Data.Char
import Mathlib.Data.List.Lex
import Mathlib.Data.List.Sort

/-!
# The walk of a dropped folder

`walk_staged` skips what it cannot name and sorts the rest. What it lists is every file and folder it can name, once and
in the order of their paths. The name of an entry stands below a folder that is listed before it.
-/

namespace BridgeVm.AgentConsole.FileDrop

open Lib

/-! ## The folder on the host -/

/-- What `symlink_metadata` finds at a path. `read_dir` gives the names in a folder as bytes, in any order. -/
inductive Inode
  | file (bytes : List UInt8)
  | folder (entries : List (List UInt8 × Inode))
  /-- A symlink or a device. -/
  | other

/-- `into_string` of an `OsString`. -/
def intoString (bytes : List UInt8) : Option Name := bytes.toByteArray.utf8Decode?.map Array.toList

mutual

/-- A folder as the walk takes it: the names that are text, sorted. -/
def stagedEntries : List (List UInt8 × Inode) → List (Name × Staged)
  | [] => []
  | (bytes, inode) :: entries =>
    match intoString bytes with
    | some name => (stagedEntries entries).orderedInsert (fun a b => a.1 < b.1) (name, inode.staged)
    | none => stagedEntries entries

def Inode.staged : Inode → Staged
  | .file bytes => .file bytes
  | .folder entries => .folder (stagedEntries entries)
  | .other => .other

end

/-- What stands at a path of a folder. -/
inductive StandsAt : List (List UInt8 × Inode) → HostRel → Inode → Prop
  | here {entries bytes name inode} (hmem : (bytes, inode) ∈ entries) (hname : intoString bytes = some name) :
    StandsAt entries [name] inode
  | inside {entries bytes name inner rest inode} (hmem : (bytes, .folder inner) ∈ entries)
    (hname : intoString bytes = some name) (hrest : StandsAt inner rest inode) : StandsAt entries (name :: rest) inode

def Inode.entry (hostRel : HostRel) : Inode → Option DropEntry
  | .file bytes => some ⟨hostRel, some bytes.length⟩
  | .folder _ => some ⟨hostRel, none⟩
  | .other => none

mutual

/-- No folder of the tree has two entries of one name. -/
def DistinctNames : List (List UInt8 × Inode) → Prop
  | [] => True
  | (bytes, inode) :: entries => bytes ∉ entries.map Prod.fst ∧ inode.Distinct ∧ DistinctNames entries

def Inode.Distinct : Inode → Prop
  | .folder entries => DistinctNames entries
  | _ => True

end

section Listing

variable {entries : List (List UInt8 × Inode)} {rel hostRel : HostRel} {name : Name} {inode : Inode} {e : DropEntry}

theorem utf8_of_intoString {bytes : List UInt8} (h : intoString bytes = some name) : utf8 name = bytes := by
  obtain ⟨chars, hdecode, rfl⟩ := Option.map_eq_some_iff.1 h
  have hencode := ByteArray.utf8Encode_get_utf8Decode? (b := bytes.toByteArray) (h := by simp [hdecode])
  simp only [hdecode, Option.get_some] at hencode
  exact List.toByteArray_inj.1 hencode

theorem intoString_utf8 (name : Name) : intoString (utf8 name) = some name := by
  have hdecode : (utf8 name).toByteArray.utf8Decode? = some name.toArray := List.utf8Decode?_utf8Encode
  rw [intoString, hdecode, Option.map_some]

theorem mem_stagedEntries {staged : Staged} : ∀ {entries : List (List UInt8 × Inode)},
    (name, staged) ∈ stagedEntries entries ↔
      ∃ bytes inode, (bytes, inode) ∈ entries ∧ intoString bytes = some name ∧ inode.staged = staged
  | [] => by simp [stagedEntries]
  | (bytes, inode) :: entries => by
    rw [stagedEntries]
    split
    · next name' hname =>
      rw [List.mem_orderedInsert, mem_stagedEntries]
      grind
    · next hname =>
      rw [mem_stagedEntries]
      grind

theorem walkStaged_eq_flatMap (l : List (Name × Staged)) : walkStaged rel l =
    l.flatMap fun a => if '\\' ∈ a.1 then [] else walkEntry (rel ++ [a.1]) a.2 := by
  induction l with
  | nil => rw [walkStaged, List.flatMap_nil]
  | cons a l ih => rw [walkStaged, List.flatMap_cons, ih]

theorem sizeOf_lt_of_folder {bytes : List UInt8} {inner : List (List UInt8 × Inode)}
    (h : (bytes, .folder inner) ∈ entries) : sizeOf inner < sizeOf entries := by
  have hsize := List.sizeOf_lt_of_mem h
  simp only [Prod.mk.sizeOf_spec, Inode.folder.sizeOf_spec] at hsize
  omega

theorem DistinctNames.of_mem {bytes : List UInt8} {inner : List (List UInt8 × Inode)} (hd : DistinctNames entries)
    (h : (bytes, .folder inner) ∈ entries) : DistinctNames inner := by
  induction entries with
  | nil => cases h
  | cons entry entries ih =>
    obtain ⟨bytes', inode⟩ := entry
    rw [DistinctNames] at hd
    rcases List.mem_cons.1 h with heq | h
    · cases heq
      exact hd.2.1
    · exact ih hd.2.2 h

theorem mem_walkStaged {l : List (Name × Staged)} :
    e ∈ walkStaged rel l ↔ ∃ name staged, (name, staged) ∈ l ∧ '\\' ∉ name ∧
    e ∈ walkEntry (rel ++ [name]) staged := by
  rw [walkStaged_eq_flatMap, List.mem_flatMap]
  grind

theorem listed_stagedEntries {entries : List (List UInt8 × Inode)} {rel : HostRel}
    (h : e ∈ walkStaged rel (stagedEntries entries)) : ∃ hostRel inode, StandsAt entries hostRel inode ∧
      (∀ name ∈ hostRel, '\\' ∉ name) ∧ inode.entry (rel ++ hostRel) = some e := by
  obtain ⟨name, _, hstaged, hname, he⟩ := mem_walkStaged.1 h
  obtain ⟨bytes, inode, hmem, htext, rfl⟩ := mem_stagedEntries.1 hstaged
  match inode with
  | .file contents =>
    rw [Inode.staged, walkEntry, List.mem_singleton] at he
    exact ⟨[name], .file contents, .here hmem htext, by simpa using hname, by rw [he]; rfl⟩
  | .folder inner =>
    rw [Inode.staged, walkEntry, List.mem_cons] at he
    rcases he with rfl | he
    · exact ⟨[name], .folder inner, .here hmem htext, by simpa using hname, rfl⟩
    · obtain ⟨hostRel, inode, hstands, hnames, hentry⟩ := listed_stagedEntries he
      refine ⟨name :: hostRel, inode, .inside hmem htext hstands, List.forall_mem_cons.2 ⟨hname, hnames⟩, ?_⟩
      rwa [List.append_cons]
  | .other =>
    rw [Inode.staged, walkEntry] at he
    cases he
termination_by sizeOf entries
decreasing_by exact sizeOf_lt_of_folder hmem

theorem listed_of_standsAt (h : StandsAt entries hostRel inode) (hnames : ∀ name ∈ hostRel, '\\' ∉ name)
    (he : inode.entry (rel ++ hostRel) = some e) : e ∈ walkStaged rel (stagedEntries entries) := by
  induction h generalizing rel with
  | @here _ _ name inode hmem hname =>
    refine mem_walkStaged.2 ⟨name, _, mem_stagedEntries.2 ⟨_, _, hmem, hname, rfl⟩, hnames _ (by simp), ?_⟩
    cases inode <;> simp_all [Inode.entry, Inode.staged, walkEntry]
  | @inside _ _ name inner rest inode hmem hname hrest ih =>
    refine mem_walkStaged.2 ⟨name, _, mem_stagedEntries.2 ⟨_, _, hmem, hname, rfl⟩, hnames _ (by simp), ?_⟩
    rw [Inode.staged, walkEntry]
    refine List.mem_cons_of_mem _ (ih (fun name' hmem' => hnames _ (List.mem_cons_of_mem _ hmem')) ?_)
    rwa [List.append_assoc, List.singleton_append]

mutual

theorem prefix_walkStaged (rel : HostRel) : ∀ l, ∀ e ∈ walkStaged rel l, rel <+: e.hostRel
  | [], e, h => by
    rw [walkStaged] at h
    cases h
  | (name, staged) :: l, e, h => by
    rw [walkStaged, List.mem_append] at h
    rcases h with h | h
    · split at h
      · cases h
      · exact (List.prefix_append ..).trans (prefix_walkEntry (rel ++ [name]) staged e h)
    · exact prefix_walkStaged rel l e h

theorem prefix_walkEntry (rel : HostRel) : ∀ staged, ∀ e ∈ walkEntry rel staged, rel <+: e.hostRel
  | .file bytes, e, h => by
    rw [walkEntry, List.mem_singleton] at h
    subst h
    exact List.prefix_rfl
  | .folder l, e, h => by
    rw [walkEntry, List.mem_cons] at h
    rcases h with rfl | h
    · exact List.prefix_rfl
    · exact prefix_walkStaged rel l e h
  | .other, e, h => by
    rw [walkEntry] at h
    cases h

end

theorem lt_of_prefix {name' : Name} {p q : HostRel} (hlt : name < name') (hp : rel ++ [name] <+: p)
    (hq : rel ++ [name'] <+: q) : p < q := by
  obtain ⟨rest, rfl⟩ := hp
  obtain ⟨rest', rfl⟩ := hq
  rw [List.append_assoc, List.append_assoc]
  exact List.append_left_lt (List.cons_lt_cons_iff.2 (.inl hlt))

theorem lt_of_mem_walkStaged {l : List (Name × Staged)} (h : e ∈ walkStaged rel l) : rel < e.hostRel := by
  obtain ⟨name, staged, -, -, he⟩ := mem_walkStaged.1 h
  obtain ⟨rest, hrest⟩ := prefix_walkEntry _ _ _ he
  rw [← hrest, List.append_assoc]
  have hlt : rel ++ [] < rel ++ name :: rest := List.append_left_lt (List.nil_lt_cons name rest)
  simpa using hlt

theorem sorted_orderedInsert {a : Name × Staged} {l : List (Name × Staged)} (hne : ∀ b ∈ l, b.1 ≠ a.1)
    (h : l.Pairwise fun a b => a.1 < b.1) :
    (l.orderedInsert (fun a b => a.1 < b.1) a).Pairwise fun a b => a.1 < b.1 := by
  induction l with
  | nil => exact List.pairwise_singleton ..
  | cons b l ih =>
    rw [List.pairwise_cons] at h
    rw [List.forall_mem_cons] at hne
    rw [List.orderedInsert_cons]
    split
    · next hlt =>
      refine .cons (List.forall_mem_cons.2 ⟨hlt, fun c hc => hlt.trans (h.1 c hc)⟩) (.cons h.1 h.2)
    · next hlt =>
      refine .cons (fun c hc => ?_) (ih hne.2 h.2)
      rcases (List.mem_orderedInsert _).1 hc with rfl | hc
      · exact lt_of_le_of_ne (not_lt.1 hlt) hne.1
      · exact h.1 c hc

theorem sorted_stagedEntries : ∀ {entries : List (List UInt8 × Inode)}, DistinctNames entries →
    (stagedEntries entries).Pairwise fun a b => a.1 < b.1
  | [], _ => by
    rw [stagedEntries]
    exact .nil
  | (bytes, inode) :: entries, h => by
    rw [DistinctNames] at h
    rw [stagedEntries]
    split
    · next name hname =>
      have hne : ∀ a ∈ stagedEntries entries, a.1 ≠ name := by
        rintro ⟨_, _⟩ ha rfl
        obtain ⟨bytes', inode', hmem, hname', -⟩ := mem_stagedEntries.1 ha
        rw [← utf8_of_intoString hname, utf8_of_intoString hname'] at h
        exact h.1 (List.mem_map_of_mem hmem)
      exact sorted_orderedInsert hne (sorted_stagedEntries h.2.2)
    · exact sorted_stagedEntries h.2.2

theorem sorted_walkStaged {entries : List (List UInt8 × Inode)} {rel : HostRel} (h : DistinctNames entries) :
    (walkStaged rel (stagedEntries entries)).Pairwise fun a b => a.hostRel < b.hostRel := by
  rw [walkStaged_eq_flatMap, List.pairwise_flatMap]
  refine ⟨fun (name, _) hstaged => ?_, (sorted_stagedEntries h).imp fun {a b} hlt x hx y hy => ?_⟩
  · obtain ⟨bytes, inode, hmem, -, rfl⟩ := mem_stagedEntries.1 hstaged
    split
    · exact .nil
    · match inode with
      | .file _ =>
        rw [Inode.staged, walkEntry]
        exact List.pairwise_singleton ..
      | .folder inner =>
        rw [Inode.staged, walkEntry]
        exact .cons (fun e he => lt_of_mem_walkStaged he) (sorted_walkStaged (h.of_mem hmem))
      | .other =>
        rw [Inode.staged, walkEntry]
        exact .nil
  · split at hx
    · cases hx
    split at hy
    · cases hy
    exact lt_of_prefix hlt (prefix_walkEntry _ _ _ hx) (prefix_walkEntry _ _ _ hy)
termination_by sizeOf entries
decreasing_by exact sizeOf_lt_of_folder hmem

/-- **What the walk lists.** Every file and folder whose path has only names that are text without a backslash, and
nothing else; each once, in the order of the paths, so that a folder stands before its contents. -/
theorem listing_exact (h : DistinctNames entries) :
    (∀ e, e ∈ walkStaged [] (stagedEntries entries) ↔ ∃ hostRel inode, StandsAt entries hostRel inode ∧
        (∀ name ∈ hostRel, '\\' ∉ name) ∧ inode.entry hostRel = some e) ∧
      (walkStaged [] (stagedEntries entries)).Pairwise fun a b => a.hostRel < b.hostRel :=
  ⟨fun _ => ⟨fun he => listed_stagedEntries he,
    fun ⟨_, _, hstands, hnames, hentry⟩ => listed_of_standsAt hstands hnames hentry⟩, sorted_walkStaged h⟩

end Listing

/-- A folder after a file, a name that is no text, a name with a backslash and a symlink. -/
def droppedFolder : List (List UInt8 × Inode) :=
  [(utf8 ['b'], .file [7]), ([255], .file [1]),
    (utf8 ['a'], .folder [(utf8 ['c'], .file [2, 3]), (utf8 ['d'], .other)]),
    (utf8 ['x', '\\', 'y'], .file [4])]

theorem listing_exact_droppedFolder :
    walkStaged [] (stagedEntries droppedFolder) =
        [⟨[['a']], none⟩, ⟨[['a'], ['c']], some 2⟩, ⟨[['b']], some 1⟩] ∧
      ⟨[['a'], ['c']], some 2⟩ ∈ walkStaged [] (stagedEntries droppedFolder) := by
  have hdistinct : DistinctNames droppedFolder := by
    simp [DistinctNames, droppedFolder, Inode.Distinct, utf8]
    decide
  have hinner : (utf8 ['a'], .folder [(utf8 ['c'], .file [2, 3]), (utf8 ['d'], .other)]) ∈ droppedFolder := by
    simp [droppedFolder]
  have hstands : StandsAt droppedFolder [['a'], ['c']] (.file [2, 3]) :=
    .inside hinner (intoString_utf8 _) (.here (.head _) (intoString_utf8 _))
  exact ⟨by decide +kernel, ((listing_exact hdistinct).1 _).2 ⟨_, _, hstands, by decide, rfl⟩⟩

/-! ## Names below a folder -/

/-- A name stands below a folder of the list before it, or below `rel`. -/
def Nested (rel : HostRel) (entries : List DropEntry) : Prop :=
  ∀ pre e post, entries = pre ++ e :: post →
    ∃ parent leaf, e.hostRel = parent ++ [leaf] ∧ '\\' ∉ leaf ∧ (parent = rel ∨ ⟨parent, none⟩ ∈ pre)

theorem Nested.append {rel : HostRel} {xs ys : List DropEntry} (hx : Nested rel xs) (hy : Nested rel ys) :
    Nested rel (xs ++ ys) := by
  intro pre e post heq
  rcases List.append_eq_append_iff.mp heq with ⟨mid, rfl, hmid⟩ | ⟨mid, rfl, hmid⟩
  · obtain ⟨parent, leaf, hrel, hleaf, hparent⟩ := hy mid e post hmid
    exact ⟨parent, leaf, hrel, hleaf, hparent.imp_right (List.mem_append_right _)⟩
  · cases mid with
    | nil =>
      obtain ⟨parent, leaf, hrel, hleaf, hparent⟩ := hy [] e post (by simpa using hmid.symm)
      exact ⟨parent, leaf, hrel, hleaf, hparent.imp_right fun h => by cases h⟩
    | cons e' mid =>
      cases hmid
      exact hx pre e mid rfl

theorem Nested.below {rel : HostRel} {name : Name} {xs : List DropEntry} (hname : '\\' ∉ name)
    (hx : Nested (rel ++ [name]) xs) : Nested rel (⟨rel ++ [name], none⟩ :: xs) := by
  intro pre e post heq
  cases pre with
  | nil =>
    cases heq
    exact ⟨rel, name, rfl, hname, .inl rfl⟩
  | cons e' pre =>
    cases heq
    obtain ⟨parent, leaf, hrel, hleaf, hparent⟩ := hx pre e post rfl
    refine ⟨parent, leaf, hrel, hleaf, .inr ?_⟩
    rcases hparent with rfl | hparent
    · exact List.mem_cons_self ..
    · exact List.mem_cons_of_mem _ hparent

mutual

theorem nested_walkStaged (rel : HostRel) : ∀ entries, Nested rel (walkStaged rel entries)
  | [] => by
    intro pre e post heq
    simp [walkStaged] at heq
  | (name, staged) :: entries => by
    rw [walkStaged]
    refine Nested.append ?_ (nested_walkStaged rel entries)
    by_cases hname : '\\' ∈ name
    · rw [if_pos hname]
      intro pre e post heq
      simp at heq
    · rw [if_neg hname]
      exact nested_walkEntry rel name hname staged

theorem nested_walkEntry (rel : HostRel) (name : Name) (hname : '\\' ∉ name) :
    ∀ staged, Nested rel (walkEntry (rel ++ [name]) staged)
  | .file bytes => by
    intro pre e post heq
    rw [walkEntry, List.singleton_eq_append_iff] at heq
    rcases heq with ⟨rfl, heq⟩ | ⟨-, heq⟩
    · cases heq
      exact ⟨rel, name, rfl, hname, .inl rfl⟩
    · cases heq
  | .folder entries => by
    rw [walkEntry]
    exact (nested_walkStaged (rel ++ [name]) entries).below hname
  | .other => by
    intro pre e post heq
    simp [walkEntry] at heq

end

theorem Nested.entry {entries : List DropEntry} {n : Nat} {e : DropEntry} (h : Nested [] entries)
    (hget : entries[n]? = some e) :
    ∃ leaf, e.hostRel.getLast? = some leaf ∧ '\\' ∉ leaf ∧
      (e.hostRel.dropLast = [] ∨ ⟨e.hostRel.dropLast, none⟩ ∈ entries.take n) := by
  obtain ⟨hlt, hget⟩ := List.getElem?_eq_some_iff.mp hget
  have heq : entries = entries.take n ++ e :: entries.drop (n + 1) := by
    rw [← hget, List.cons_getElem_drop_succ, List.take_append_drop]
  obtain ⟨parent, leaf, hrel, hleaf, hparent⟩ := h _ _ _ heq
  refine ⟨leaf, by rw [hrel, List.getLast?_concat], hleaf, ?_⟩
  rw [hrel, List.dropLast_concat]
  exact hparent

end BridgeVm.AgentConsole.FileDrop
