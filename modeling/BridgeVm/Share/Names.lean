import BridgeVm.Lib.AssocMap
import Mathlib.Data.List.DropRight

/-!
# Share names and their Windows keys (`share_win_names.rs`, `share_host_unseen.rs`, `share_rel_path.rs`)

Windows looks names up without case and drops trailing dots and spaces from the last component. A name has a key as a
whole, and one component by component; names with one key as a whole have one component by component
(`unseenKey_of_windowsKey`).
-/

namespace BridgeVm.Share

open Lib

/-! ## Case -/

/-- The BMP characters with an upper case of one BMP character: from a first to a last, by a step, onto an image. -/
def upperRuns : List (Nat × Nat × Nat × Nat) :=
  [(97, 122, 1, 65), (181, 181, 1, 924), (224, 246, 1, 192), (248, 254, 1, 216), (255, 255, 1, 376),
    (257, 303, 2, 256), (305, 305, 1, 73), (307, 311, 2, 306), (314, 328, 2, 313), (331, 375, 2, 330),
    (378, 382, 2, 377), (383, 383, 1, 83), (384, 384, 1, 579), (387, 389, 2, 386), (392, 392, 1, 391),
    (396, 396, 1, 395), (402, 402, 1, 401), (405, 405, 1, 502), (409, 409, 1, 408), (410, 410, 1, 573),
    (411, 411, 1, 42972), (414, 414, 1, 544), (417, 421, 2, 416), (424, 424, 1, 423), (429, 429, 1, 428),
    (432, 432, 1, 431), (436, 438, 2, 435), (441, 441, 1, 440), (445, 445, 1, 444), (447, 447, 1, 503),
    (453, 453, 1, 452), (454, 454, 1, 452), (456, 456, 1, 455), (457, 457, 1, 455), (459, 459, 1, 458),
    (460, 460, 1, 458), (462, 476, 2, 461), (477, 477, 1, 398), (479, 495, 2, 478), (498, 498, 1, 497),
    (499, 499, 1, 497), (501, 501, 1, 500), (505, 543, 2, 504), (547, 563, 2, 546), (572, 572, 1, 571),
    (575, 576, 1, 11390), (578, 578, 1, 577), (583, 591, 2, 582), (592, 592, 1, 11375), (593, 593, 1, 11373),
    (594, 594, 1, 11376), (595, 595, 1, 385), (596, 596, 1, 390), (598, 599, 1, 393), (601, 601, 1, 399),
    (603, 603, 1, 400), (604, 604, 1, 42923), (608, 608, 1, 403), (609, 609, 1, 42924), (611, 611, 1, 404),
    (612, 612, 1, 42955), (613, 613, 1, 42893), (614, 614, 1, 42922), (616, 616, 1, 407), (617, 617, 1, 406),
    (618, 618, 1, 42926), (619, 619, 1, 11362), (620, 620, 1, 42925), (623, 623, 1, 412), (625, 625, 1, 11374),
    (626, 626, 1, 413), (629, 629, 1, 415), (637, 637, 1, 11364), (640, 640, 1, 422), (642, 642, 1, 42949),
    (643, 643, 1, 425), (647, 647, 1, 42929), (648, 648, 1, 430), (649, 649, 1, 580), (650, 651, 1, 433),
    (652, 652, 1, 581), (658, 658, 1, 439), (669, 669, 1, 42930), (670, 670, 1, 42928), (837, 837, 1, 921),
    (881, 883, 2, 880), (887, 887, 1, 886), (891, 893, 1, 1021), (940, 940, 1, 902), (941, 943, 1, 904),
    (945, 961, 1, 913), (962, 962, 1, 931), (963, 971, 1, 931), (972, 972, 1, 908), (973, 974, 1, 910),
    (976, 976, 1, 914), (977, 977, 1, 920), (981, 981, 1, 934), (982, 982, 1, 928), (983, 983, 1, 975),
    (985, 1007, 2, 984), (1008, 1008, 1, 922), (1009, 1009, 1, 929), (1010, 1010, 1, 1017), (1011, 1011, 1, 895),
    (1013, 1013, 1, 917), (1016, 1016, 1, 1015), (1019, 1019, 1, 1018), (1072, 1103, 1, 1040), (1104, 1119, 1, 1024),
    (1121, 1153, 2, 1120), (1163, 1215, 2, 1162), (1218, 1230, 2, 1217), (1231, 1231, 1, 1216),
    (1233, 1327, 2, 1232), (1377, 1414, 1, 1329), (4304, 4346, 1, 7312), (4349, 4351, 1, 7357),
    (5112, 5117, 1, 5104), (7296, 7296, 1, 1042), (7297, 7297, 1, 1044), (7298, 7298, 1, 1054),
    (7299, 7300, 1, 1057), (7301, 7301, 1, 1058), (7302, 7302, 1, 1066), (7303, 7303, 1, 1122),
    (7304, 7304, 1, 42570), (7306, 7306, 1, 7305), (7545, 7545, 1, 42877), (7549, 7549, 1, 11363),
    (7566, 7566, 1, 42950), (7681, 7829, 2, 7680), (7835, 7835, 1, 7776), (7841, 7935, 2, 7840),
    (7936, 7943, 1, 7944), (7952, 7957, 1, 7960), (7968, 7975, 1, 7976), (7984, 7991, 1, 7992),
    (8000, 8005, 1, 8008), (8017, 8023, 2, 8025), (8032, 8039, 1, 8040), (8048, 8049, 1, 8122),
    (8050, 8053, 1, 8136), (8054, 8055, 1, 8154), (8056, 8057, 1, 8184), (8058, 8059, 1, 8170),
    (8060, 8061, 1, 8186), (8112, 8113, 1, 8120), (8126, 8126, 1, 921), (8144, 8145, 1, 8152), (8160, 8161, 1, 8168),
    (8165, 8165, 1, 8172), (8526, 8526, 1, 8498), (8560, 8575, 1, 8544), (8580, 8580, 1, 8579),
    (9424, 9449, 1, 9398), (11312, 11359, 1, 11264), (11361, 11361, 1, 11360), (11365, 11365, 1, 570),
    (11366, 11366, 1, 574), (11368, 11372, 2, 11367), (11379, 11379, 1, 11378), (11382, 11382, 1, 11381),
    (11393, 11491, 2, 11392), (11500, 11502, 2, 11499), (11507, 11507, 1, 11506), (11520, 11557, 1, 4256),
    (11559, 11559, 1, 4295), (11565, 11565, 1, 4301), (42561, 42605, 2, 42560), (42625, 42651, 2, 42624),
    (42787, 42799, 2, 42786), (42803, 42863, 2, 42802), (42874, 42876, 2, 42873), (42879, 42887, 2, 42878),
    (42892, 42892, 1, 42891), (42897, 42899, 2, 42896), (42900, 42900, 1, 42948), (42903, 42921, 2, 42902),
    (42933, 42947, 2, 42932), (42952, 42954, 2, 42951), (42957, 42971, 2, 42956), (42998, 42998, 1, 42997),
    (43859, 43859, 1, 42931), (43888, 43967, 1, 5024), (65345, 65370, 1, 65313)]

/-- The fold of `windows_key`: other characters stay as they are. -/
def fold (c : Char) : Char :=
  match upperRuns.find? fun (first, last, step, _) => first ≤ c.toNat ∧ c.toNat ≤ last ∧
  (c.toNat - first) % step = 0 with
  | some (first, _, _, image) => Char.ofNat (image + (c.toNat - first))
  | none => c

theorem upperRuns_bounds : (upperRuns.all fun (first, last, _, image) =>
    65 ≤ first ∧ 65 ≤ image ∧
      (image + (last - first) < 0xd800 ∨ 0xe000 ≤ image ∧ image + (last - first) ≤ 0xffff)) =
      true := by decide

/-- Nothing below `A` has another case. -/
theorem fold_eq_iff {c d : Char} (hd : d.toNat < 65) : fold c = d ↔ c = d := by
  unfold fold
  cases hfind : upperRuns.find? fun (first, last, step, _) =>
      first ≤ c.toNat ∧ c.toNat ≤ last ∧ (c.toNat - first) % step = 0 with
  | none => exact Iff.rfl
  | some run =>
    obtain ⟨first, last, step, image⟩ := run
    have hrun := List.find?_some hfind
    have hbounds := List.all_eq_true.1 upperRuns_bounds _ (List.mem_of_find?_eq_some hfind)
    simp only [decide_eq_true_eq] at hrun hbounds
    obtain ⟨hfirst, himage, hvalid⟩ := hbounds
    have hvalidChar : (image + (c.toNat - first)).isValidChar := by
      unfold Nat.isValidChar
      omega
    have hchar : (Char.ofNat (image + (c.toNat - first))).toNat = image + (c.toNat - first) := by
      rw [Char.ofNat, dif_pos hvalidChar]
      rfl
    dsimp only
    constructor
    · rintro rfl
      omega
    · rintro rfl
      omega

/-! ## Names -/

/-- A share key: a path with forward slashes, whose components are not empty. -/
structure RelPath where
  chars : List Char
  normal : chars = [] ∨ [] ∉ chars.splitOn '/'
deriving DecidableEq

theorem not_mem_of_mem_splitOnP {p : Char → Bool} {xs part : List Char} (h : part ∈ xs.splitOnP p) {c : Char}
    (hc : p c = true) : c ∉ part := by
  induction xs generalizing part with
  | nil =>
    rw [List.splitOnP_nil, List.mem_singleton] at h
    rw [h]
    exact List.not_mem_nil
  | cons x xs ih =>
    rw [List.splitOnP_cons_eq_if_modifyHead] at h
    by_cases hx : p x
    · rw [if_pos hx] at h
      rcases List.mem_cons.1 h with rfl | h
      · exact List.not_mem_nil
      · exact ih h
    · rw [if_neg hx] at h
      cases hsplit : xs.splitOnP p with
      | nil =>
        rw [hsplit] at h
        cases h
      | cons head tail =>
        rw [hsplit, List.modifyHead_cons] at h
        rcases List.mem_cons.1 h with rfl | h
        · intro hmem
          rcases List.mem_cons.1 hmem with rfl | hmem
          · exact hx hc
          · exact ih (hsplit ▸ List.mem_cons_self) hmem
        · exact ih (hsplit ▸ List.mem_cons_of_mem _ h)

/-- The parts of a relative path, without empty ones and `.`. -/
def relParts (name : List Char) : List (List Char) :=
  (name.splitOnP fun c => c == '/' || c == '\\').filter fun part => part ≠ [] ∧ part ≠ ['.']

/-- `append_rel_with_sep_into`: what it appends. -/
def appendRelWithSep (name : List Char) (sep : Char) : List Char := List.intercalate [sep] (relParts name)

/-- `write_share_guest_path_into`: the file of a key in the guest's folder `dir`. -/
def shareGuestPath (dir name : List Char) : List Char := dir ++ '\\' :: appendRelWithSep name '\\'

/-- `normalize_rel`. -/
def normalizeRel (name : List Char) : RelPath where
  chars := appendRelWithSep name '/'
  normal := by
    unfold appendRelWithSep
    generalize hparts : relParts name = parts
    by_cases hnil : parts = []
    · exact .inl (by rw [hnil]; rfl)
    · have hpart : ∀ part ∈ parts, part ≠ [] ∧ '/' ∉ part := by
        intro part hpart
        rw [← hparts, relParts, List.mem_filter, decide_eq_true_eq] at hpart
        exact ⟨hpart.2.1, not_mem_of_mem_splitOnP hpart.1 (by decide)⟩
      right
      rw [List.splitOn_intercalate _ (fun part h => (hpart part h).2) hnil]
      exact fun hmem => (hpart [] hmem).1 rfl

/-- What Win32 drops at the end of a name. -/
def trimmed (c : Char) : Bool := c == '.' || c == ' '

def windowsKey (name : List Char) : List Char := (name.rdropWhile trimmed).map fold

/-- Components with slashes in between, none before the first one that is not empty. -/
def joinKey (parts : List (List Char)) : List Char :=
  parts.foldl (fun key part => (if key = [] then key else key ++ ['/']) ++ part) []

def unseenKey (name : List Char) : List Char :=
  joinKey (((name.splitOn '/').filter fun part => part ≠ []).map windowsKey)

/-! ## Keys -/

theorem trimmed_fold (c : Char) : trimmed (fold c) = trimmed c := by
  have hdot := fold_eq_iff (c := c) (d := '.') (by decide)
  have hspace := fold_eq_iff (c := c) (d := ' ') (by decide)
  refine Bool.eq_iff_iff.2 ?_
  simp only [trimmed, Bool.or_eq_true, beq_iff_eq, hdot, hspace]

theorem rdropWhile_map_fold (xs : List Char) : (xs.map fold).rdropWhile trimmed = (xs.rdropWhile trimmed).map fold := by
  have htrimmed : trimmed ∘ fold = trimmed := funext trimmed_fold
  rw [List.rdropWhile, List.rdropWhile, ← List.map_reverse, List.dropWhile_map, htrimmed, List.map_reverse]

theorem splitOn_map_fold (xs : List Char) : (xs.map fold).splitOn '/' = (xs.splitOn '/').map (List.map fold) := by
  induction xs with
  | nil => rfl
  | cons x xs ih =>
    have hslash : fold x = '/' ↔ x = '/' := fold_eq_iff (by decide)
    rw [List.map_cons, List.splitOn_cons_eq_if_modifyHead, List.splitOn_cons_eq_if_modifyHead, ih]
    simp only [beq_iff_eq, hslash]
    by_cases hx : x = '/'
    · rw [if_pos hx, if_pos hx, List.map_cons, List.map_nil]
    · rw [if_neg hx, if_neg hx]
      cases xs.splitOn '/' with
      | nil => rfl
      | cons part parts => rfl

theorem rdropWhile_append_slash (front last : List Char) :
    (front ++ '/' :: last).rdropWhile trimmed = front ++ '/' :: last.rdropWhile trimmed := by
  induction last using List.reverseRecOn with
  | nil =>
    rw [List.rdropWhile_nil]
    exact List.rdropWhile_concat_neg _ _ _ (by decide)
  | append_singleton last c ih =>
    rw [← List.cons_append, ← List.append_assoc, List.rdropWhile_concat, List.rdropWhile_concat, ih]
    by_cases hc : trimmed c
    · rw [if_pos hc, if_pos hc]
    · rw [if_neg hc, if_neg hc, List.append_assoc, List.cons_append]

theorem splitOn_rdropWhile (xs : List Char) : ∃ init last, xs.splitOn '/' = init ++ [last] ∧
    (xs.rdropWhile trimmed).splitOn '/' = init ++ [last.rdropWhile trimmed] := by
  by_cases hslash : '/' ∈ xs
  · -- the last slash
    obtain ⟨last, front, hxs, hlast⟩ := List.eq_append_cons_of_mem (List.mem_reverse.2 hslash)
    have hxs : xs = front.reverse ++ '/' :: last.reverse := by
      rw [← List.reverse_reverse xs, hxs]
      simp
    have hlast : '/' ∉ last.reverse := fun h => hlast (List.mem_reverse.1 h)
    have hkept : '/' ∉ last.reverse.rdropWhile trimmed := fun h =>
      hlast ((List.rdropWhile_prefix trimmed _).subset h)
    have htrim : xs.rdropWhile trimmed = front.reverse ++ '/' :: last.reverse.rdropWhile trimmed := by
      rw [hxs, rdropWhile_append_slash]
    refine ⟨front.reverse.splitOn '/', last.reverse, ?_, ?_⟩
    · rw [hxs, List.splitOn_append_cons_self, List.splitOn_eq_singleton hlast]
    · rw [htrim, List.splitOn_append_cons_self, List.splitOn_eq_singleton hkept]
  · have hkept : '/' ∉ xs.rdropWhile trimmed := fun h =>
      hslash ((List.rdropWhile_prefix trimmed _).subset h)
    exact ⟨[], xs, List.splitOn_eq_singleton hslash, List.splitOn_eq_singleton hkept⟩

theorem splitOn_windowsKey (xs : List Char) : ∃ init last, xs.splitOn '/' = init ++ [last] ∧
    (windowsKey xs).splitOn '/' = init.map (List.map fold) ++ [windowsKey last] := by
  obtain ⟨init, last, hxs, htrim⟩ := splitOn_rdropWhile xs
  refine ⟨init, last, hxs, ?_⟩
  rw [windowsKey, splitOn_map_fold, htrim, List.map_append]
  rfl

theorem unseenKey_eq (name : RelPath) : unseenKey name.chars =
    joinKey (((windowsKey name.chars).splitOn '/').map fun part => part.rdropWhile trimmed) := by
  obtain ⟨init, last, hparts, hkey⟩ := splitOn_windowsKey name.chars
  have hkeys : (init.map (List.map fold) ++ [windowsKey last]).map (fun part => part.rdropWhile trimmed) =
      (init ++ [last]).map windowsKey := by
    have hlast : (windowsKey last).rdropWhile trimmed = windowsKey last := by
      rw [windowsKey, rdropWhile_map_fold, List.rdropWhile_idempotent]
    rw [List.map_append, List.map_append, List.map_map, List.map_singleton, List.map_singleton, hlast]
    congr 1
    exact List.map_congr_left fun part _ => rdropWhile_map_fold part
  rw [hkey, hkeys, ← hparts, unseenKey]
  rcases name.normal with hnil | hnormal
  · rw [hnil]
    rfl
  · congr 2
    refine List.filter_eq_self.2 fun part hpart => ?_
    rw [decide_eq_true_eq]
    rintro rfl
    exact hnormal hpart

theorem unseenKey_of_windowsKey {a b : RelPath} (h : windowsKey a.chars = windowsKey b.chars) :
    unseenKey a.chars = unseenKey b.chars := by
  rw [unseenKey_eq, unseenKey_eq, h]

/-- `folder_trimmed_by_windows`: the components but the last are the folders. -/
def folderTrimmedByWindows (name : List Char) : Bool :=
  (name.splitOn '/').dropLast.any fun part => part.getLast?.any trimmed

end BridgeVm.Share
