import BridgeVm.AgentConsole.WalkStaged
import BridgeVm.Lib.EventLog

/-!
# Deliveries

What the answers to a job's requests say when all of a staged tree was delivered, and how far a running drop is: what it
asks for next is what its own answers so far allow.
-/

namespace BridgeVm.AgentConsole.FileDrop

open Lib

/-! ## What a delivery is -/

/-- A line with its answer. -/
abbrev Exchange := DropReq × Reply

/-- `path` is `leaf` in the guest folder that the parent of `hostRel` became. -/
def Inside (folders : AssocMap HostRel (List Char)) (hostRel : HostRel) (leaf : Name) (path : List Char) : Prop :=
  (hostRel.dropLast = [] ∧ path = leaf) ∨
    ∃ parent, folders.get hostRel.dropLast = some parent ∧ path = parent ++ '\\' :: leaf

def chunkExchanges (payloads : List (List UInt8)) : List Exchange :=
  payloads.mapIdx fun i bytes => (.chunk i bytes, .okChunk i)

/-- What the agent accepted for a list of entries, with the guest folders that this made. -/
inductive Delivered (root : List (Name × Staged)) :
    List DropEntry → AssocMap HostRel (List Char) → List Exchange → Prop
  | nil : Delivered root [] AssocMap.empty []
  | dir {entries : List DropEntry} {folders : AssocMap HostRel (List Char)} {xs : List Exchange} {hostRel : HostRel}
      {leaf name : Name} {rel guest : List Char} (h : Delivered root entries folders xs)
      (hleaf : hostRel.getLast? = some leaf ∧ '\\' ∉ leaf) (hrel : Inside folders hostRel leaf rel)
      (hname : guestName (some name) = some name) (hguest : Inside folders hostRel name guest) :
      Delivered root (entries ++ [⟨hostRel, none⟩]) (folders.insert hostRel guest)
        (xs ++ [(.dir rel, .named .dir (some name))])
  | file {entries : List DropEntry} {folders : AssocMap HostRel (List Char)} {xs : List Exchange} {hostRel : HostRel}
      {leaf : Name} {rel : List Char} {content : List UInt8} {size : Nat} {payloads : List (List UInt8)} (name : Name)
      (h : Delivered root entries folders xs)
      (hleaf : hostRel.getLast? = some leaf ∧ '\\' ∉ leaf) (hrel : Inside folders hostRel leaf rel)
      (hcontent : fileAt root hostRel = some content) (hsize : size ≤ content.length)
      (hpayloads : payloads.flatten = content.take size) :
      Delivered root (entries ++ [⟨hostRel, some size⟩]) folders
        (xs ++ (.beg rel size, .named .beg (some name)) :: chunkExchanges payloads ++
          [(.stop payloads.length, .okEnd (some size))])

/-- The event is the answer to line `c`. -/
def Event.isAnswerTo (c : Nat) : Event → Bool
  | .answered serial .. => serial = c
  | _ => false

def Event.exchange? : Event → Option Exchange
  | .answered _ req reply => some (req, reply)
  | _ => none

/-- What the agent answered since its answer to line `c`, oldest first. -/
def transcript (c : Nat) (log : List Event) : List Exchange :=
  ((since (Event.isAnswerTo c) log).filterMap Event.exchange?).reverse

/-- What an event needs of what happened before it. -/
def Sound : Event → List Event → Prop
  | .sent serial job req, earlier =>
    (∀ n job' req', .sent n job' req' ∈ earlier → n < serial) ∧
      (req = .abort ∨ (.done job ∉ earlier ∧ .failed job ∉ earlier))
  | .credited serial job, earlier => ∃ req, .sent serial job req ∈ earlier
  | .done job, earlier =>
    ∃ id root c reply folders, .started job id root ∈ earlier ∧ .sent c job .caps ∈ earlier ∧
      .answered c .caps reply ∈ earlier ∧ Delivered root (walkStaged [] root) folders (transcript c earlier)
  | _, _ => True

/-- The answer to a line of an earlier job does not look like the one to the request for the capabilities. -/
def Uncrossed (s : State) : Act → Prop
  | .pump _ =>
    match s.inFlight, s.queue with
    | none, (_, .caps) :: _ => ∀ item ∈ s.link.items, item.2 ≠ .caps
    | _, _ => True
  | .deliver =>
    match s.link.outputs, s.inFlight with
    | .answer serial _ .tooOld :: _, some (_, req) => req = .abort ∨ serial = s.link.sent
    | _, _ => True
  | _ => True

instance (s : State) (a : Act) : Decidable (Uncrossed s a) := by
  unfold Uncrossed
  split
  · split <;> infer_instance
  · split <;> infer_instance
  · infer_instance

/-! ## Transcripts -/

section Transcripts

variable {c serial : Nat} {req : DropReq} {reply : Reply} {e : Event} {log : List Event}

theorem transcript_event (h : e.exchange? = none) : transcript c (e :: log) = transcript c log := by
  have hmark : e.isAnswerTo c = false := by
    cases e <;> simp_all [Event.exchange?, Event.isAnswerTo]
  rw [transcript, since_event hmark, List.filterMap_cons_none h]
  rfl

theorem transcript_answered (h : serial ≠ c) :
    transcript c (.answered serial req reply :: log) = transcript c log ++ [(req, reply)] := by
  have hmark : (Event.answered serial req reply).isAnswerTo c = false := by simpa [Event.isAnswerTo] using h
  rw [transcript, since_event hmark,
    List.filterMap_cons_some (show (Event.answered serial req reply).exchange? = some (req, reply) from rfl),
    List.reverse_cons]
  rfl

theorem transcript_start : transcript c (.answered c req reply :: log) = [] := by
  rw [transcript, since_mark (by simp [Event.isAnswerTo])]
  rfl

end Transcripts

/-! ## How far the active drop is -/

theorem Delivered.get_folder {root : List (Name × Staged)} {entries : List DropEntry}
    {folders : AssocMap HostRel (List Char)} {xs : List Exchange} (h : Delivered root entries folders xs)
    {hostRel : HostRel} (hmem : ⟨hostRel, none⟩ ∈ entries) : ∃ guest, folders.get hostRel = some guest := by
  induction h with
  | nil => cases hmem
  | @dir _ _ _ hostRel' _ _ _ guest _ _ _ _ _ ih =>
    rw [AssocMap.get_insert]
    by_cases heq : hostRel = hostRel'
    · exact ⟨guest, if_pos heq⟩
    · rw [if_neg heq]
      apply ih
      rcases List.mem_append.mp hmem with hmem | hmem
      · exact hmem
      · cases List.mem_singleton.mp hmem
        exact absurd rfl heq
  | file _ _ _ _ _ _ _ ih =>
    apply ih
    rcases List.mem_append.mp hmem with hmem | hmem
    · exact hmem
    · cases List.mem_singleton.mp hmem

section Progress

variable {root : List (Name × Staged)} {drop drop' : ActiveDrop} {xs ys : List Exchange} {req : DropReq}
  {reply : Reply}

/-- The entries before the next one are delivered. -/
structure Upto (root : List (Name × Staged)) (drop : ActiveDrop) (xs : List Exchange) : Prop where
  walked : drop.entries = walkStaged [] root
  root_eq : drop.root = root
  caps : drop.caps = true
  delivered : Delivered root (drop.entries.take drop.next) drop.folders xs

theorem Upto.inside {e : DropEntry} (h : Upto root drop xs) (hget : drop.entries[drop.next]? = some e) (leaf : Name) :
    Inside drop.folders e.hostRel leaf (inFolder drop.folders e.hostRel leaf) := by
  obtain ⟨-, -, -, hparent⟩ := Nested.entry (h.walked ▸ nested_walkStaged [] root) hget
  unfold Inside inFolder
  rcases hparent with hnil | hmem
  · exact .inl ⟨hnil, if_pos hnil⟩
  · by_cases hnil : e.hostRel.dropLast = []
    · exact .inl ⟨hnil, if_pos hnil⟩
    · obtain ⟨guest, hguest⟩ := h.delivered.get_folder hmem
      refine .inr ⟨guest, hguest, ?_⟩
      rw [if_neg hnil, hguest]
      rfl

/-- The next entry is a file, and open: `payloads` were accepted of what was read of it. -/
structure Opened (root : List (Name × Staged)) (drop : ActiveDrop) (file : DropFile) (payloads : List (List UInt8))
    (read : Nat) (xs : List Exchange) : Prop where
  file_eq : drop.file = some file
  read_le : read ≤ file.size ∧ read ≤ file.content.length
  payloads_eq : payloads.flatten = file.content.take read
  exchanges : ∃ hostRel leaf name ys, Upto root drop ys ∧
    drop.entries[drop.next]? = some ⟨hostRel, some file.size⟩ ∧
    hostRel.getLast? = some leaf ∧ '\\' ∉ leaf ∧ fileAt root hostRel = some file.content ∧
    xs = ys ++ (.beg (guestRel drop.folders hostRel) file.size, .named .beg (some name)) :: chunkExchanges payloads

/-- How far the drop is, and the request that was made for its next step. -/
inductive Progress (root : List (Name × Staged)) (drop : ActiveDrop) : Option DropReq → List Exchange → Prop
  | between {zs : List Exchange} (h : Upto root drop zs) (hfile : drop.file = none) : Progress root drop none zs
  | dir {zs : List Exchange} {hostRel : HostRel} (h : Upto root drop zs) (hfile : drop.file = none)
      (hget : drop.entries[drop.next]? = some ⟨hostRel, none⟩) :
      Progress root drop (some (.dir (guestRel drop.folders hostRel))) zs
  | beg {zs : List Exchange} {hostRel : HostRel} {content : List UInt8} {size : Nat} (h : Upto root drop zs)
      (hfile : drop.file = some ⟨content, size, 0, 0⟩)
        (hget : drop.entries[drop.next]? = some ⟨hostRel, some size⟩)
      (hcontent : fileAt root hostRel = some content) :
      Progress root drop (some (.beg (guestRel drop.folders hostRel) size)) zs
  | opened {zs : List Exchange} {file : DropFile} {payloads : List (List UInt8)}
    (h : Opened root drop file payloads file.read zs)
      (hchunks : file.chunks = payloads.length) : Progress root drop none zs
  | chunk {zs : List Exchange} {file : DropFile} {payloads : List (List UInt8)} {bytes : List UInt8} {read : Nat}
      (h : Opened root drop file payloads read zs) (hchunks : file.chunks = payloads.length + 1)
      (hread : file.read ≤ file.size ∧ file.read ≤ file.content.length)
      (hbytes : file.content.take read ++ bytes = file.content.take file.read) :
      Progress root drop (some (.chunk payloads.length bytes)) zs
  | stop {zs : List Exchange} {file : DropFile} {payloads : List (List UInt8)}
    (h : Opened root drop file payloads file.size zs) :
      Progress root drop (some (.stop payloads.length)) zs

/-- The next request, or the end of the delivery. -/
theorem Progress.nextReq (h : Progress root drop none xs) (io : Bool) :
    (∃ drop' req, drop.nextReq io = (drop', .ok (some req)) ∧ Progress root drop' (some req) xs) ∨
      (drop.nextReq io = (drop, .ok none) ∧ ∃ folders, Delivered root (walkStaged [] root) folders xs) ∨
      drop.nextReq io = (drop, .error ()) := by
  cases h with
  | between h hfile =>
    unfold ActiveDrop.nextReq
    simp only [h.caps, Bool.not_true, Bool.false_eq_true, if_false, hfile]
    cases hget : drop.entries[drop.next]? with
    | none =>
      refine .inr (.inl ⟨rfl, drop.folders, ?_⟩)
      have hd := h.delivered
      rw [List.take_of_length_le (List.getElem?_eq_none_iff.mp hget), h.walked] at hd
      exact hd
    | some e =>
      obtain ⟨hostRel, size⟩ := e
      cases size with
      | none => exact .inl ⟨drop, _, rfl, .dir h hfile hget⟩
      | some size =>
        simp only
        cases hcontent : (if io = true then fileAt drop.root hostRel else none) with
        | none => exact .inr (.inr rfl)
        | some content =>
          refine .inl ⟨_, _, rfl, ?_⟩
          have hread : fileAt root hostRel = some content := by
            rw [← h.root_eq]
            cases io with
            | true => exact hcontent
            | false => cases hcontent
          exact .beg ⟨h.walked, h.root_eq, rfl, h.delivered⟩ rfl hget hread
  | @opened _ file payloads h hchunks =>
    obtain ⟨hostRel, leaf, name, ys, hup, hrest⟩ := h.exchanges
    unfold ActiveDrop.nextReq
    simp only [hup.caps, Bool.not_true, Bool.false_eq_true, if_false, h.file_eq]
    by_cases hmore : file.read < file.size
    · rw [if_pos hmore]
      by_cases hio : (!io) = true ∨
          ((file.content.drop file.read).take (min (file.size - file.read) dropChunkBytes)).length <
            min (file.size - file.read) dropChunkBytes
      · rw [if_pos hio]
        exact .inr (.inr rfl)
      · rw [if_neg hio]
        rw [not_or, List.length_take, List.length_drop] at hio
        refine .inl ⟨_, _, rfl, ?_⟩
        rw [hchunks]
        refine .chunk (show Opened root _ _ payloads file.read xs from ⟨rfl, h.read_le, h.payloads_eq, ?_⟩)
          rfl ?_ ?_
        · exact ⟨hostRel, leaf, name, ys, ⟨hup.walked, hup.root_eq, rfl, hup.delivered⟩, hrest⟩
        · have hle := h.read_le
          dsimp only
          omega
        · exact (List.take_add ..).symm
    · rw [if_neg hmore, hchunks]
      have hread : file.read = file.size := Nat.le_antisymm h.read_le.1 (by omega)
      exact .inl ⟨drop, _, rfl, .stop (hread ▸ h)⟩

/-- What stays of a drop while it goes on. -/
def ActiveDrop.Same (drop drop' : ActiveDrop) : Prop :=
  drop'.id = drop.id ∧ drop'.root = drop.root ∧ drop'.entries = drop.entries

theorem nextReq_same (drop : ActiveDrop) (io : Bool) : drop.Same (drop.nextReq io).1 := by
  unfold ActiveDrop.nextReq
  dsimp only
  split
  · exact ⟨rfl, rfl, rfl⟩
  · split
    · split
      · split <;> exact ⟨rfl, rfl, rfl⟩
      · exact ⟨rfl, rfl, rfl⟩
    · split
      · exact ⟨rfl, rfl, rfl⟩
      · split
        · exact ⟨rfl, rfl, rfl⟩
        · split <;> exact ⟨rfl, rfl, rfl⟩

theorem reply_same {reply : DropReply} (h : drop.reply reply = some drop') : drop.Same drop' := by
  cases reply with
  | failed => cases h
  | named name =>
    simp only [ActiveDrop.reply] at h
    split at h <;> cases h <;> exact ⟨rfl, rfl, rfl⟩
  | stop written =>
    simp only [ActiveDrop.reply] at h
    split at h
    · cases h
    · cases h
      exact ⟨rfl, rfl, rfl⟩
  | _ =>
    cases h
    exact ⟨rfl, rfl, rfl⟩

theorem guestName_eq {name : Option Name} {name' : Name} (h : guestName name = some name') :
    name = some name' ∧ guestName (some name') = some name' := by
  unfold guestName at h
  rw [Option.filter_eq_some_iff] at h
  obtain ⟨rfl, hok⟩ := h
  exact ⟨rfl, Option.filter_eq_some_iff.mpr ⟨rfl, hok⟩⟩

theorem chunkExchanges_snoc (payloads : List (List UInt8)) (bytes : List UInt8) :
    chunkExchanges (payloads ++ [bytes]) =
      chunkExchanges payloads ++ [(.chunk payloads.length bytes, .okChunk payloads.length)] :=
  List.mapIdx_concat

/-- The answers that a request is done with. -/
theorem classify_spec (hignored : classify req reply ≠ .ignored) (hfailed : classify req reply ≠ .failed) :
    match req with
    | .caps => reply = .caps ∧ classify req reply = .caps
    | .dir _ => ∃ name, reply = .named .dir (some name) ∧ guestName (some name) = some name ∧
        classify req reply = .named name
    | .beg .. => ∃ name, reply = .named .beg (some name) ∧ guestName (some name) = some name ∧
        classify req reply = .named name
    | .chunk seq bytes => reply = .okChunk seq ∧ classify req reply = .chunk bytes.length
    | .stop _ => ∃ written, reply = .okEnd (some written) ∧ classify req reply = .stop written
    | .abort => reply = .okAbort ∧ classify req reply = .aborted := by
  have herr : ∀ verb, reply ≠ .err verb := by
    rintro verb rfl
    by_cases hverb : req.verb = verb <;> simp [classify, hverb] at hignored hfailed
  have hnamed : ∀ name : Option Name, ((guestName name).map DropReply.named).getD .failed ≠ .failed →
      ∃ name', name = some name' ∧ guestName (some name') = some name' ∧
        ((guestName name).map DropReply.named).getD .failed = .named name' := by
    intro name hok
    cases hname : guestName name with
    | none => simp [hname] at hok
    | some name' =>
      obtain ⟨rfl, hvalid⟩ := guestName_eq hname
      exact ⟨name', rfl, hvalid, rfl⟩
  cases reply with
  | tooOld => exact absurd (by cases req <;> rfl) hfailed
  | err verb => exact absurd rfl (herr verb)
  | caps =>
    cases req with
    | caps => exact ⟨rfl, rfl⟩
    | _ => exact absurd rfl hignored
  | named verb name =>
    cases req with
    | dir rel =>
      cases verb <;> simp only [classify, ne_eq, not_true_eq_false] at hignored hfailed
      obtain ⟨name', rfl, hvalid, heq⟩ := hnamed name hfailed
      exact ⟨name', rfl, hvalid, heq⟩
    | beg rel size =>
      cases verb <;> simp only [classify, ne_eq, not_true_eq_false] at hignored hfailed
      obtain ⟨name', rfl, hvalid, heq⟩ := hnamed name hfailed
      exact ⟨name', rfl, hvalid, heq⟩
    | _ => cases verb <;> exact absurd rfl hignored
  | okChunk n =>
    cases req with
    | chunk seq bytes =>
      by_cases hseq : n = seq
      · simp [classify, hseq]
      · simp [classify, hseq] at hignored
    | _ => exact absurd rfl hignored
  | okEnd written =>
    cases req with
    | stop chunks =>
      cases written with
      | none => simp [classify] at hfailed
      | some written => exact ⟨written, rfl, rfl⟩
    | _ => exact absurd rfl hignored
  | okAbort =>
    cases req with
    | abort => exact ⟨rfl, rfl⟩
    | _ => exact absurd rfl hignored

/-- An answer that the drop goes on with adds its exchange. -/
theorem Progress.credited (h : Progress root drop (some req) xs) (hignored : classify req reply ≠ .ignored)
    (hdrop : drop.reply (classify req reply) = some drop') : Progress root drop' none (xs ++ [(req, reply)]) := by
  have hfailed : classify req reply ≠ .failed := by
    intro hfailed
    rw [hfailed] at hdrop
    cases hdrop
  have hspec := classify_spec hignored hfailed
  cases h with
  | @dir _ hostRel h hfile hget =>
    obtain ⟨name, rfl, hname, hclassify⟩ := hspec
    rw [hclassify] at hdrop
    simp only [ActiveDrop.reply, hfile, hget, Option.some.injEq] at hdrop
    obtain rfl := hdrop
    obtain ⟨leaf, hleaf, hslash, -⟩ := Nested.entry (h.walked ▸ nested_walkStaged [] root) hget
    have hlast : hostRel.getLastD [] = leaf := by
      rw [List.getLastD_eq_getLast?, hleaf]
      rfl
    have hrel := h.inside hget (hostRel.getLastD [])
    rw [hlast] at hrel
    have hd := h.delivered.dir ⟨hleaf, hslash⟩ hrel hname (h.inside hget name)
    refine .between ⟨h.walked, h.root_eq, h.caps, ?_⟩ rfl
    rw [List.take_add_one, hget, guestRel, hlast]
    exact hd
  | @beg _ hostRel content size h hfile hget hcontent =>
    obtain ⟨name, rfl, -, hclassify⟩ := hspec
    rw [hclassify] at hdrop
    simp only [ActiveDrop.reply, hfile, Option.some.injEq] at hdrop
    obtain rfl := hdrop
    obtain ⟨leaf, hleaf, hslash, -⟩ := Nested.entry (h.walked ▸ nested_walkStaged [] root) hget
    have hopened : Opened root drop ⟨content, size, 0, 0⟩ [] 0
        (xs ++ [(.beg (guestRel drop.folders hostRel) size, .named .beg (some name))]) :=
      ⟨hfile, ⟨Nat.zero_le _, Nat.zero_le _⟩, by simp, hostRel, leaf, name, xs, h, hget, hleaf, hslash,
        hcontent, rfl⟩
    exact .opened hopened rfl
  | @chunk _ file payloads bytes read h hchunks hread hbytes =>
    obtain ⟨rfl, hclassify⟩ := hspec
    rw [hclassify] at hdrop
    cases hdrop
    obtain ⟨hostRel, leaf, name, ys, hup, hget, hleaf, hslash, hcontent, rfl⟩ := h.exchanges
    refine .opened (show Opened root drop file (payloads ++ [bytes]) file.read _ from ⟨h.file_eq, hread, ?_, ?_⟩) ?_
    · rw [List.flatten_append, h.payloads_eq, List.flatten_singleton, hbytes]
    · refine ⟨hostRel, leaf, name, ys, hup, hget, hleaf, hslash, hcontent, ?_⟩
      rw [chunkExchanges_snoc, List.append_assoc]
      rfl
    · rw [hchunks, List.length_append]
      rfl
  | @stop _ file payloads h =>
    obtain ⟨written, rfl, hclassify⟩ := hspec
    rw [hclassify] at hdrop
    simp only [ActiveDrop.reply, h.file_eq, Option.map_some] at hdrop
    split at hdrop
    · cases hdrop
    · next hsize =>
      cases hdrop
      obtain ⟨hostRel, leaf, name, ys, hup, hget, hleaf, hslash, hcontent, rfl⟩ := h.exchanges
      obtain rfl : file.size = written := by simpa using hsize
      have hlast : hostRel.getLastD [] = leaf := by
        rw [List.getLastD_eq_getLast?, hleaf]
        rfl
      have hrel := hup.inside hget (hostRel.getLastD [])
      rw [hlast] at hrel
      have hd := hup.delivered.file name ⟨hleaf, hslash⟩ hrel hcontent h.read_le.2 h.payloads_eq
      refine .between ⟨hup.walked, hup.root_eq, hup.caps, ?_⟩ rfl
      rw [List.take_add_one, hget, guestRel, hlast]
      exact hd

end Progress

end BridgeVm.AgentConsole.FileDrop
