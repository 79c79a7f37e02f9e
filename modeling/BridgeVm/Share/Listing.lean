import BridgeVm.Lib.Text
import BridgeVm.Share.Engine

/-!
# Guest listings

`share_listing.rs` with its parts, `share_rel_path.rs`, `share_name_limits.rs` and `share_name_refusals.rs`. A listing
has a row `name|size|flag|mtime` for each file of the guest's folder. It is checked as a whole before anything is read
of it. `parseLsInto_spec` says what is then read: the entries of the rows, in order, but for the names that are refused;
and a key that is not refused stays below the folder it is joined to (`below_pathJoin`).
-/

namespace BridgeVm.Share

open Lib

/-! ## Names -/

/-- The length of a text in UTF-8. -/
def byteLen (s : List Char) : Nat := (s.map Char.utf8Size).sum

/-- The length of a text in UTF-16 code units. -/
def utf16Len (s : List Char) : Nat := (s.map fun c => if 0x10000 ≤ c.toNat then 2 else 1).sum

/-- `PATH_MAX_BYTES`. -/
def pathMaxBytes : Nat := 1024

/-- `NAME_MAX_UTF16`. -/
def nameMaxUtf16 : Nat := 255

def fitsHostLimits (key : List Char) : Bool :=
  byteLen key < pathMaxBytes && (key.splitOn '/').all fun part => utf16Len part ≤ nameMaxUtf16

/-- A name has a component `..`, by either separator. -/
def hasParent (name : List Char) : Bool :=
  (name.splitOnP fun c => c == '/' || c == '\\').any fun part => part = ['.', '.']

/-- `from_guest_rel`. -/
def fromGuestRel (name : List Char) : Option RelPath :=
  if hasParent name then none
  else (some (normalizeRel name)).filter fun key => fitsHostLimits key.chars

/-- `append_guest_rel_into`. -/
def appendGuestRelInto (name out : List Char) : List Char := out ++ appendRelWithSep name '\\'

/-- `REFUSED_SHOWN`. -/
def refusedShown : Nat := 3

structure RefusedNames where
  count : Nat
  /-- The reason and the byte length of the first names. -/
  shown : List (String × Nat)
  fingerprint : UInt64
deriving DecidableEq

namespace RefusedNames

def default : RefusedNames := ⟨0, [], 0⟩

def note (refused : RefusedNames) (listed : List Char) : RefusedNames where
  count := refused.count + 1
  shown :=
    if refused.shown.length < refusedShown then
      refused.shown ++
        [(if pathMaxBytes ≤ byteLen (normalizeRel listed).chars then "path-too-long" else "component-too-long",
          byteLen listed)]
    else refused.shown
  fingerprint := (refused.fingerprint ^^^ fnv1a64 (utf8 listed)) * 0x100000001b3

/-- The key of a listed name; a name refused only for its length is noted. -/
def key (refused : RefusedNames) (listed : List Char) : RefusedNames × Option RelPath :=
  let key := fromGuestRel listed
  (if key = none ∧ hasParent listed = false then refused.note listed else refused, key)

end RefusedNames

/-! ## Listings -/

/-- `MAX_LISTING_BYTES`. -/
def maxListingBytes : Nat := 1024 * 1024

/-- `MAX_LISTING_ENTRIES`. -/
def maxListingEntries : Nat := 4096

inductive ListingRowField
  | fields
  | size
  | directoryFlag
deriving DecidableEq

inductive ListingLimitError
  | tooManyBytes (bytes : Nat)
  | tooManyEntries (atLeast : Nat)
  | invalidRow (row : Nat) (field : ListingRowField)
deriving DecidableEq

/-- The lines of a listing that are not empty. -/
def rows (listing : List Char) : List (List Char) := (lines listing).filter fun line => line ≠ []

def parseSize (text : List Char) : Option Nat := parseUnsigned (2 ^ 64) text

/-- What is wrong with a row. -/
def rowFault (line : List Char) : Option ListingRowField :=
  match rsplitn '|' 4 line with
  | [_mtime, directory, size, _name] =>
    if parseSize size = none then some .size
    else if directory = ['0'] ∨ directory = ['1'] then none
    else some .directoryFlag
  | _ => some .fields

/-- The schema check of the rows from number `row` on. -/
def schemaCheck (row : Nat) : List (List Char) → Option ListingLimitError
  | [] => none
  | line :: lines =>
    match rowFault line with
    | some field => some (.invalidRow row field)
    | none => schemaCheck (row + 1) lines

/-- `check` of the bounds, then of the schema. -/
def checkListing (listing : List Char) : Option ListingLimitError :=
  if maxListingBytes < byteLen listing then some (.tooManyBytes (byteLen listing))
  else if maxListingEntries < (rows listing).length then some (.tooManyEntries (maxListingEntries + 1))
  else schemaCheck 1 (rows listing)

/-- `parse_into` row by row. -/
def parseRows (refused : RefusedNames) : List (List Char) → RefusedNames × List LsEntry
  | [] => (refused, [])
  | line :: lines =>
    match rsplitn '|' 4 line with
    | mtime :: isDir :: sizeText :: rest =>
      match parseSize sizeText, rest with
      | some size, listed :: _ =>
        match refused.key listed with
        | (refused, some name) =>
          let (refused, out) := parseRows refused lines
          (refused, { name, size, isDir := isDir = ['1'], mtime := utf8 mtime } :: out)
        | (refused, none) => parseRows refused lines
      | _, _ => parseRows refused lines
    | _ => parseRows refused lines

/-- `parse_into`, which clears what was read before. -/
def parseInto (listing : List Char) (_out : List LsEntry) : RefusedNames × List LsEntry :=
  parseRows .default (rows listing)

/-- `parse_ls_into`: the result, and the entries afterwards. -/
def parseLsInto (listing : List Char) (out : List LsEntry) : Except ListingLimitError RefusedNames × List LsEntry :=
  match checkListing listing with
  | some error => (.error error, out)
  | none =>
    let (refused, out) := parseInto listing out
    (.ok refused, out)

/-! ## Keys -/

variable {name key : List Char} {k : RelPath}

/-- A component of a path that stays where it is put. -/
def Plain (part : List Char) : Prop := part ≠ [] ∧ part ≠ ['.'] ∧ part ≠ ['.', '.'] ∧ '/' ∉ part ∧
    '\\' ∉ part

/-- A key of plain components within the limits of the host. -/
structure SafeKey (key : List Char) : Prop where
  plain : ∀ part ∈ key.splitOn '/', Plain part
  fits : fitsHostLimits key = true

theorem chars_normalizeRel (name : List Char) : (normalizeRel name).chars = List.intercalate ['/'] (relParts name) :=
  rfl

theorem mem_relParts {part : List Char} (h : part ∈ relParts name) :
    part ≠ [] ∧ part ≠ ['.'] ∧ '/' ∉ part ∧ '\\' ∉ part ∧
    part ∈ name.splitOnP fun c => c == '/' || c == '\\' := by
  rw [relParts, List.mem_filter, decide_eq_true_eq] at h
  exact ⟨h.2.1, h.2.2, not_mem_of_mem_splitOnP h.1 (by decide), not_mem_of_mem_splitOnP h.1 (by decide), h.1⟩

theorem splitOnP_intercalate {α : Type} {p : α → Bool} {sep : α} {parts : List (List α)} (hsep : p sep = true)
    (h : ∀ part ∈ parts, ∀ c ∈ part, p c = false) (hne : parts ≠ []) :
    (List.intercalate [sep] parts).splitOnP p = parts := by
  induction parts with
  | nil => exact absurd rfl hne
  | cons part parts ih =>
    have hpart : ∀ c ∈ part, p c = false := h part List.mem_cons_self
    cases parts with
    | nil =>
      rw [show List.intercalate [sep] [part] = part by simp [List.intercalate]]
      exact List.splitOnP_eq_singleton hpart
    | cons next rest =>
      have hcons : List.intercalate [sep] (part :: next :: rest) = part ++ sep :: List.intercalate [sep]
        (next :: rest) := by
        simp [List.intercalate]
      rw [hcons, List.splitOnP_append_cons_of_forall_mem hpart sep hsep,
        ih (fun q hq => h q (List.mem_cons_of_mem _ hq)) (List.cons_ne_nil _ _)]

theorem splitOnP_relParts {sep : Char} (hsep : (sep == '/' || sep == '\\') = true) (hne : relParts name ≠ []) :
    (List.intercalate [sep] (relParts name)).splitOnP (fun c => c == '/' || c == '\\') = relParts name := by
  refine splitOnP_intercalate hsep (fun part hpart c hc => ?_) hne
  obtain ⟨-, -, hslash, hback, -⟩ := mem_relParts hpart
  rw [Bool.or_eq_false_iff, beq_eq_false_iff_ne, beq_eq_false_iff_ne]
  exact ⟨fun h => hslash (h ▸ hc), fun h => hback (h ▸ hc)⟩

theorem relParts_intercalate {sep : Char} (hsep : (sep == '/' || sep == '\\') = true) :
    relParts (List.intercalate [sep] (relParts name)) = relParts name := by
  by_cases hne : relParts name = []
  · rw [hne]
    rfl
  · rw [relParts, splitOnP_relParts hsep hne]
    refine List.filter_eq_self.2 fun part hpart => ?_
    obtain ⟨hnil, hdot, -⟩ := mem_relParts hpart
    rw [decide_eq_true_eq]
    exact ⟨hnil, hdot⟩

theorem RelPath.ext_chars {a b : RelPath} (h : a.chars = b.chars) : a = b := by
  cases a
  cases b
  cases h
  rfl

theorem normalizeRel_idem (name : List Char) : normalizeRel (normalizeRel name).chars = normalizeRel name := by
  apply RelPath.ext_chars
  rw [chars_normalizeRel, chars_normalizeRel, relParts_intercalate (by decide)]

theorem fromGuestRel_eq_some_iff : fromGuestRel name = some k ↔
    hasParent name = false ∧ k = normalizeRel name ∧ fitsHostLimits (normalizeRel name).chars = true := by
  unfold fromGuestRel
  cases hasParent name with
  | true => simp
  | false =>
    simp only [Bool.false_eq_true, if_false, Option.filter_eq_some_iff, Option.some.injEq, true_and]
    constructor
    · rintro ⟨rfl, hfits⟩
      exact ⟨rfl, hfits⟩
    · rintro ⟨rfl, hfits⟩
      exact ⟨rfl, hfits⟩

theorem safeKey_of_fromGuestRel (h : fromGuestRel name = some k) : k.chars = [] ∨ SafeKey k.chars := by
  obtain ⟨hparent, rfl, hfits⟩ := fromGuestRel_eq_some_iff.1 h
  by_cases hne : relParts name = []
  · left
    rw [chars_normalizeRel, hne]
    rfl
  · refine .inr ⟨fun part hpart => ?_, hfits⟩
    have hsplit : (normalizeRel name).chars.splitOn '/' = relParts name :=
      List.splitOn_intercalate _ (fun part hpart => (mem_relParts hpart).2.2.1) hne
    rw [hsplit] at hpart
    obtain ⟨hnil, hdot, hslash, hback, hmem⟩ := mem_relParts hpart
    refine ⟨hnil, hdot, ?_, hslash, hback⟩
    rintro rfl
    have hany : hasParent name = true := List.any_eq_true.2 ⟨_, hmem, rfl⟩
    rw [hparent] at hany
    cases hany

/-- The guest's form of a key is read back as the key. -/
theorem fromGuestRel_appendGuestRelInto (h : fromGuestRel name = some k) :
    fromGuestRel (appendGuestRelInto k.chars []) = some k := by
  obtain ⟨hparent, rfl, hfits⟩ := fromGuestRel_eq_some_iff.1 h
  have hkept : relParts (normalizeRel name).chars = relParts name := relParts_intercalate (by decide)
  have hwire : appendGuestRelInto (normalizeRel name).chars [] = List.intercalate ['\\'] (relParts name) := by
    rw [appendGuestRelInto, List.nil_append, appendRelWithSep, hkept]
  have hnormal : normalizeRel (List.intercalate ['\\'] (relParts name)) = normalizeRel name := by
    apply RelPath.ext_chars
    rw [chars_normalizeRel, chars_normalizeRel, relParts_intercalate (by decide)]
  have hnone : hasParent (List.intercalate ['\\'] (relParts name)) = false := by
    by_cases hne : relParts name = []
    · rw [hne]
      rfl
    · rw [hasParent, splitOnP_relParts (by decide) hne]
      rw [Bool.eq_false_iff]
      intro hany
      obtain ⟨part, hpart, hdots⟩ := List.any_eq_true.1 hany
      have hmem := (mem_relParts hpart).2.2.2.2
      have : hasParent name = true := List.any_eq_true.2 ⟨part, hmem, hdots⟩
      rw [hparent] at this
      cases this
  rw [hwire, fromGuestRel_eq_some_iff, hnormal]
  exact ⟨hnone, rfl, hfits⟩

/-! ## Below a folder -/

/-- Where a path leads from a folder: a folder is the components from the root of the file system. -/
def walk (folder : List (List Char)) : List (List Char) → List (List Char)
  | [] => folder
  | part :: path =>
    if part = [] ∨ part = ['.'] then walk folder path
    else if part = ['.', '.'] then walk folder.dropLast path
    else walk (folder ++ [part]) path

/-- `Path::join`: an absolute path replaces the folder. -/
def pathJoin (root path : List Char) : List Char :=
  if path.head? = some '/' then path
  else if root = [] ∨ root.getLast? = some '/' then root ++ path
  else root ++ '/' :: path

theorem walk_append (folder path more : List (List Char)) :
    walk folder (path ++ more) = walk (walk folder path) more := by
  induction path generalizing folder with
  | nil => rfl
  | cons part path ih =>
    rw [List.cons_append, walk, walk]
    split
    · exact ih folder
    · split
      · exact ih folder.dropLast
      · exact ih (folder ++ [part])

theorem walk_plain (folder : List (List Char)) {path : List (List Char)} (h : ∀ part ∈ path, Plain part) :
    walk folder path = folder ++ path := by
  induction path generalizing folder with
  | nil => rw [walk, List.append_nil]
  | cons part path ih =>
    obtain ⟨hnil, hdot, hdots, -⟩ := h part List.mem_cons_self
    rw [walk, if_neg (not_or.2 ⟨hnil, hdot⟩), if_neg hdots, ih _ fun q hq => h q (List.mem_cons_of_mem _ hq),
      List.append_assoc, List.singleton_append]

theorem walk_snoc_nil (folder path : List (List Char)) : walk folder (path ++ [[]]) = walk folder path := by
  rw [walk_append, walk, if_pos (.inl rfl), walk]

/-- A safe key leads from the root of the share to a place below it. -/
theorem below_pathJoin (h : SafeKey key) (root : List Char) :
    walk [] ((pathJoin root key).splitOn '/') = walk [] (root.splitOn '/') ++ key.splitOn '/' ∧
    key.splitOn '/' ≠ [] := by
  refine ⟨?_, List.splitOn_ne_nil _ _⟩
  have hrelative : key.head? ≠ some '/' := by
    intro hhead
    obtain ⟨rest, rfl⟩ : ∃ rest, key = '/' :: rest := by
      cases key with
      | nil => cases hhead
      | cons c rest => exact ⟨rest, by rw [Option.some.inj hhead]⟩
    have hempty : [] ∈ ('/' :: rest).splitOn '/' := by
      rw [List.splitOn_cons_eq_if_modifyHead, if_pos (beq_self_eq_true _)]
      exact List.mem_cons_self
    exact (h.plain [] hempty).1 rfl
  rw [pathJoin, if_neg hrelative, ← walk_plain _ h.plain]
  by_cases hslash : root = [] ∨ root.getLast? = some '/'
  · rw [if_pos hslash]
    rcases hslash with rfl | hlast
    · rfl
    · obtain ⟨front, rfl⟩ : ∃ front, root = front ++ ['/'] := by
        obtain ⟨front, hfront⟩ := List.getLast?_eq_some_iff.1 hlast
        exact ⟨front, hfront⟩
      rw [List.append_assoc, List.singleton_append, List.splitOn_append_cons_self, List.splitOn_append_cons_self,
        walk_append, List.splitOn_nil, walk_snoc_nil]
  · rw [if_neg hslash, List.splitOn_append_cons_self, walk_append]

/-! ## Rows -/

/-- A row with its fields. -/
structure Row where
  name : List Char
  sizeText : List Char
  size : Nat
  isDir : Bool
  mtime : List Char
  read : parseSize sizeText = some size
  sizeBar : '|' ∉ sizeText
  mtimeBar : '|' ∉ mtime

namespace Row

def flag (row : Row) : List Char := if row.isDir then ['1'] else ['0']

def text (row : Row) : List Char := row.name ++ '|' :: (row.sizeText ++ '|' :: (row.flag ++ '|' :: row.mtime))

/-- The entry of a row, unless its name is refused. -/
def entry (row : Row) : Option LsEntry :=
  (fromGuestRel row.name).map fun name => { name, size := row.size, isDir := row.isDir, mtime := utf8 row.mtime }

theorem rsplitn_text (row : Row) : rsplitn '|' 4 row.text = [row.mtime, row.flag, row.sizeText, row.name] := by
  have hflag : '|' ∉ row.flag := by
    unfold flag
    split <;> decide
  have htext : row.text = ((row.name ++ '|' :: row.sizeText) ++ '|' :: row.flag) ++ '|' :: row.mtime := by
    simp only [text, List.append_assoc, List.cons_append]
  rw [htext, rsplitn_append 2 _ row.mtimeBar, rsplitn_append 1 _ hflag, rsplitn_append 0 _ row.sizeBar, rsplitn]

theorem flag_eq_one_iff (row : Row) : row.flag = ['1'] ↔ row.isDir = true := by
  unfold flag
  cases row.isDir with
  | true => exact ⟨fun _ => rfl, fun _ => rfl⟩
  | false => exact ⟨fun h => absurd h (by decide), fun h => (nomatch h)⟩

theorem text_ne_nil (row : Row) : row.text ≠ [] := by
  simp [text]

/-- The row of the fields that are written: a size of 64 bits as its digits. -/
def ofFields (name : List Char) (size : Nat) (isDir : Bool) (mtime : List Char) (hsize : size < 2 ^ 64)
    (hmtime : '|' ∉ mtime) : Row where
  name := name
  sizeText := Nat.toDigits 10 size
  size := size
  isDir := isDir
  mtime := mtime
  read := parseUnsigned_toDigits hsize
  sizeBar := not_mem_toDigits (by decide)
  mtimeBar := hmtime

end Row

/-- A line that passes the schema check is a row. -/
theorem exists_row {line : List Char} (h : rowFault line = none) : ∃ row : Row, row.text = line := by
  unfold rowFault at h
  match hsplit : rsplitn '|' 4 line, h with
  | [mtime, directory, sizeText, name], h =>
    dsimp only at h
    cases hsize : parseSize sizeText with
    | none =>
      rw [if_pos hsize] at h
      cases h
    | some size =>
      rw [if_neg (by rw [hsize]; exact Option.some_ne_none _)] at h
      by_cases hflag : directory = ['0'] ∨ directory = ['1']
      · obtain ⟨front, rfl, hmtime, hsplit⟩ := of_rsplitn hsplit
        obtain ⟨front, rfl, -, hsplit⟩ := of_rsplitn hsplit
        obtain ⟨front, rfl, hbar, hsplit⟩ := of_rsplitn hsplit
        rw [rsplitn] at hsplit
        obtain ⟨rfl, -⟩ := List.cons.inj hsplit
        refine ⟨⟨front, sizeText, size, decide (directory = ['1']), mtime, hsize, hbar, hmtime⟩, ?_⟩
        rcases hflag with rfl | rfl <;> simp [Row.text, Row.flag]
      · rw [if_neg hflag] at h
        cases h
  | [], h => cases h
  | [_], h => cases h
  | [_, _], h => cases h
  | [_, _, _], h => cases h
  | _ :: _ :: _ :: _ :: _ :: _, h => cases h

theorem rowFault_text (row : Row) : rowFault row.text = none := by
  have hsize : parseSize row.sizeText ≠ none := by
    rw [row.read]
    exact Option.some_ne_none _
  have hflag : row.flag = ['0'] ∨ row.flag = ['1'] := by
    unfold Row.flag
    cases row.isDir with
    | true => exact .inr rfl
    | false => exact .inl rfl
  unfold rowFault
  rw [row.rsplitn_text]
  dsimp only
  rw [if_neg hsize, if_pos hflag]

theorem schemaCheck_eq_none_iff (n : Nat) {ls : List (List Char)} :
    schemaCheck n ls = none ↔ ∃ rs : List Row, rs.map Row.text = ls := by
  induction ls generalizing n with
  | nil => exact ⟨fun _ => ⟨[], rfl⟩, fun _ => rfl⟩
  | cons line ls ih =>
    rw [schemaCheck]
    constructor
    · intro h
      cases hfault : rowFault line with
      | some field =>
        rw [hfault] at h
        cases h
      | none =>
        rw [hfault] at h
        obtain ⟨row, hrow⟩ := exists_row hfault
        obtain ⟨rs, hrs⟩ := (ih (n + 1)).1 h
        exact ⟨row :: rs, by rw [List.map_cons, hrow, hrs]⟩
    · rintro ⟨rs, hrs⟩
      match rs, hrs with
      | row :: rs, hrs =>
        obtain ⟨rfl, hrest⟩ := List.cons.inj hrs
        rw [rowFault_text]
        exact (ih (n + 1)).2 ⟨rs, hrest⟩

/-- The entries of rows, in order, and the names that are noted. -/
theorem parseRows_map (refused : RefusedNames) (rs : List Row) :
    parseRows refused (rs.map Row.text) =
      (rs.foldl (fun refused row => (refused.key row.name).1) refused, rs.filterMap Row.entry) := by
  induction rs generalizing refused with
  | nil => rfl
  | cons row rs ih =>
    have hflag : decide (row.flag = ['1']) = row.isDir :=
      Bool.eq_iff_iff.2 (decide_eq_true_iff.trans row.flag_eq_one_iff)
    rw [List.map_cons, parseRows, row.rsplitn_text, List.foldl_cons, List.filterMap_cons, Row.entry]
    dsimp only
    rw [row.read]
    dsimp only
    cases hkey : fromGuestRel row.name with
    | none =>
      have hpair : refused.key row.name = ((refused.key row.name).1, none) := by rw [← hkey]; rfl
      rw [hpair]
      dsimp only
      rw [ih]
      rfl
    | some name =>
      have hpair : refused.key row.name = ((refused.key row.name).1, some name) := by rw [← hkey]; rfl
      rw [hpair]
      dsimp only
      rw [ih, hflag]
      rfl

theorem onGuestListing_nonempty (s : ShareSync) (entries : List LsEntry) :
    s.onGuestListing (entries.filter fun entry => entry.name.chars ≠ []) = s.onGuestListing entries := by
  have hread : s.readListing (entries.filter fun entry => entry.name.chars ≠ []) = s.readListing entries := by
    simp only [ShareSync.readListing, List.filter_filter, Bool.and_self]
  rw [ShareSync.onGuestListing, ShareSync.onGuestListing, hread]

/-! ## What is read of a listing -/

/-- A listing that is refused changes nothing; of another one the entries of its rows are read, in order, but for the
names that are refused. -/
theorem parseLsInto_cases (listing : List Char) (out : List LsEntry) :
    (∃ error, parseLsInto listing out = (.error error, out)) ∨
      ∃ (refused : RefusedNames) (rs : List Row), rows listing = rs.map Row.text ∧
        parseLsInto listing out = (.ok refused, rs.filterMap Row.entry) := by
  unfold parseLsInto
  cases hcheck : checkListing listing with
  | some error => exact .inl ⟨error, rfl⟩
  | none =>
    right
    have hschema : schemaCheck 1 (rows listing) = none := by
      rw [checkListing] at hcheck
      split at hcheck
      · cases hcheck
      · split at hcheck
        · cases hcheck
        · exact hcheck
    obtain ⟨rs, hrs⟩ := (schemaCheck_eq_none_iff 1).1 hschema
    refine ⟨(parseRows .default (rows listing)).1, rs, hrs.symm, ?_⟩
    dsimp only
    rw [parseInto, ← hrs, parseRows_map]

theorem safeKey_of_mem_filterMap {rs : List Row} {entry : LsEntry} (h : entry ∈ rs.filterMap Row.entry) :
    entry.name.chars = [] ∨ SafeKey entry.name.chars := by
  obtain ⟨row, -, hrow⟩ := List.mem_filterMap.1 h
  obtain ⟨name, hname, rfl⟩ := Option.map_eq_some_iff.1 hrow
  exact safeKey_of_fromGuestRel hname

theorem rows_text (row : Row) (hname : '\n' ∉ row.name) (hsize : '\n' ∉ row.sizeText)
    (hmtime : '\n' ∉ row.mtime) :
    rows row.text = [row.text] := by
  have hflag : '\n' ∉ row.flag := by
    unfold Row.flag
    split <;> decide
  have hline : '\n' ∉ row.text := by
    simp only [Row.text, List.mem_append, List.mem_cons, not_or]
    exact ⟨hname, by decide, hsize, by decide, hflag, by decide, hmtime⟩
  rw [rows, lines_single row.text_ne_nil hline]
  exact List.filter_eq_self.2 fun line h => decide_eq_true (List.mem_singleton.1 h ▸ row.text_ne_nil)

theorem parseInto_ofFields {size : Nat} {isDir : Bool} {mtime : List Char} {out : List LsEntry}
    (hkey : fromGuestRel name = some k) (hname : '\n' ∉ name) (hsize : size < 2 ^ 64) (hmtime : '|' ∉ mtime)
    (hlf : '\n' ∉ mtime) :
    parseInto (Row.ofFields name size isDir mtime hsize hmtime).text out =
      (.default, [{ name := k, size, isDir, mtime := utf8 mtime }]) := by
  have hrows := rows_text (Row.ofFields name size isDir mtime hsize hmtime) hname (not_mem_toDigits (by decide)) hlf
  have hentry : (Row.ofFields name size isDir mtime hsize hmtime).entry =
      some { name := k, size, isDir, mtime := utf8 mtime } := by
    rw [Row.entry, show (Row.ofFields name size isDir mtime hsize hmtime).name = name from rfl, hkey]
    rfl
  have hnoted : (RefusedNames.default.key name).1 = .default := by
    rw [RefusedNames.key, hkey]
    rfl
  have hparse := parseRows_map .default [Row.ofFields name size isDir mtime hsize hmtime]
  rw [List.map_singleton, List.filterMap_cons, hentry, List.filterMap_nil, List.foldl_cons, List.foldl_nil] at hparse
  rw [parseInto, hrows, hparse]
  exact congrArg (fun refused => (refused, _)) hnoted

theorem parseLsInto_ofFields {size : Nat} {isDir : Bool} {mtime : List Char} {out : List LsEntry}
    (hkey : fromGuestRel name = some k) (hname : '\n' ∉ name) (hsize : size < 2 ^ 64) (hmtime : '|' ∉ mtime)
    (hlf : '\n' ∉ mtime) (hlen : byteLen (Row.ofFields name size isDir mtime hsize hmtime).text ≤ maxListingBytes) :
    parseLsInto (Row.ofFields name size isDir mtime hsize hmtime).text out =
      (.ok .default, [{ name := k, size, isDir, mtime := utf8 mtime }]) := by
  have hrows := rows_text (Row.ofFields name size isDir mtime hsize hmtime) hname (not_mem_toDigits (by decide)) hlf
  have hcheck : checkListing (Row.ofFields name size isDir mtime hsize hmtime).text = none := by
    rw [checkListing, if_neg (Nat.not_lt.2 hlen), hrows, List.length_singleton,
      if_neg (show ¬maxListingEntries < 1 by decide)]
    exact (schemaCheck_eq_none_iff 1).2 ⟨[_], rfl⟩
  rw [parseLsInto, hcheck]
  dsimp only
  rw [parseInto_ofFields hkey hname hsize hmtime hlf]

/-- Guest listings give safe keys only: what a listing leaves behind, how a row is read back, and what normalizing and
writing a key keep. -/
theorem listings_safe :
    (∀ listing out, (∃ error, parseLsInto listing out = (.error error, out)) ∨
      ∃ (refused : RefusedNames) (rs : List Row), rows listing = rs.map Row.text ∧
        parseLsInto listing out = (.ok refused, rs.filterMap Row.entry) ∧
        ∀ entry ∈ rs.filterMap Row.entry, entry.name.chars = [] ∨ SafeKey entry.name.chars) ∧
    (∀ (s : ShareSync) (entries : List LsEntry),
      s.onGuestListing (entries.filter fun entry => entry.name.chars ≠ []) = s.onGuestListing entries) ∧
    (∀ key, SafeKey key → ∀ root, walk [] ((pathJoin root key).splitOn '/') =
      walk [] (root.splitOn '/') ++ key.splitOn '/' ∧ key.splitOn '/' ≠ []) ∧
    (∀ (name : List Char) (key : RelPath) (size : Nat) (isDir : Bool) (mtime : List Char) (out : List LsEntry)
      (hsize : size < 2 ^ 64) (hmtime : '|' ∉ mtime), fromGuestRel name = some key → '\n' ∉ name →
      '\n' ∉ mtime →
        parseInto (Row.ofFields name size isDir mtime hsize hmtime).text out =
          (.default, [{ name := key, size, isDir, mtime := utf8 mtime }]) ∧
        (byteLen (Row.ofFields name size isDir mtime hsize hmtime).text ≤ maxListingBytes →
          parseLsInto (Row.ofFields name size isDir mtime hsize hmtime).text out =
            (.ok .default, [{ name := key, size, isDir, mtime := utf8 mtime }]))) ∧
    (∀ name, normalizeRel (normalizeRel name).chars = normalizeRel name) ∧
    ∀ name key, fromGuestRel name = some key → fromGuestRel (appendGuestRelInto key.chars []) = some key := by
  refine ⟨fun listing out => ?_, onGuestListing_nonempty, fun key hsafe root => below_pathJoin hsafe root,
    fun name key size isDir mtime out hsize hmtime hkey hname hlf =>
      ⟨parseInto_ofFields hkey hname hsize hmtime hlf, parseLsInto_ofFields hkey hname hsize hmtime hlf⟩,
    normalizeRel_idem, fun name key hkey => fromGuestRel_appendGuestRelInto hkey⟩
  rcases parseLsInto_cases listing out with herror | ⟨refused, rs, hrows, hparse⟩
  · exact .inl herror
  · exact .inr ⟨refused, rs, hrows, hparse, fun entry => safeKey_of_mem_filterMap⟩

end BridgeVm.Share
