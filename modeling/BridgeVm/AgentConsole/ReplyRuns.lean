import BridgeVm.AgentConsole.ChunkedReplies
import BridgeVm.Share.Engine

/-!
# Chunked replies in the resident service

The reply lines of `resident_service.rs` that carry command output or a file, with `share_get_reply.rs`,
`share_get_publish.rs`, `harness_get_end.rs` and `agent_restart.rs`. Lines are typed by their verb. In every run command
output is reported exactly as the agent sent it, and what is held stays below what was declared; of a shared file the
bytes are those of the chunks in the order they came, whatever their numbers (`replies_exact`).
-/

namespace BridgeVm.AgentConsole.ChunkedReplies

open Lib Base64 Share

/-! ## The service -/

/-- A reply line. -/
inductive Line
  | outBeg (rest : List Char)
  | outChunk (rest : List Char)
  | outEnd (rest : List Char)
  | getBeg (rest : List Char)
  | getChunk (rest : List Char)
  | getEnd (rest : List Char)
  | err
  /-- Another reply, which completes a command. -/
  | done

/-- The request in flight. -/
inductive Request
  | ctl (command : List Char)
  | shareGet (name : List Char)
  | clipImagePull
  /-- A request whose replies have no chunks. -/
  | other

structure ShareState where
  engine : ShareSync
  guestDir : List Char

/-- The first line of a reply and its chunk lines. -/
structure Opened where
  beg : List Char
  chunks : List (List Char)

def Opened.get (o : Opened) : GetAccum := o.chunks.foldl accumGetChunk (beginGet o.beg)

def Opened.out (o : Opened) : OutAccum := o.chunks.foldl accumOutChunk (beginOut o.beg)

def Opened.add (o : Opened) (rest : List Char) : Opened := { o with chunks := o.chunks ++ [rest] }

/-- An output that has ended. -/
structure OutEvent where
  opened : Option Opened
  stop : List Char
  report : OutReport

/-- A shared file that was written to the host. -/
structure FileEvent where
  opened : Opened
  name : List Char
  bytes : List UInt8

structure Harness where
  getAccum : Option GetAccum
  outAccum : Option OutAccum
  inFlight : Option Request
  share : Option ShareState
  /-- The lines of the replies that are open, and what came of others: no function reads these. -/
  getLines : Option Opened
  outLines : Option Opened
  reports : List OutEvent
  files : List FileEvent

def start (share : Option ShareState) : Harness where
  getAccum := none
  outAccum := none
  inFlight := none
  share := share
  getLines := none
  outLines := none
  reports := []
  files := []

/-- What writing a file gives: its time, or an error that may persist. -/
inductive WriteResult
  | wrote (mtimeMs : Option Nat)
  | failed (persistent : Bool)

namespace Harness

def dropGet (h : Harness) : Harness := { h with getAccum := none, getLines := none }

/-- `handle_unlabelled_get_fragment`. -/
def getFragment (h : Harness) : Line → Option Harness
  | .getBeg rest => some { h with getAccum := some (beginGet rest), getLines := some ⟨rest, []⟩ }
  | .getChunk rest =>
    some { h with
      getAccum := h.getAccum.map fun accum => accumGetChunk accum rest
      getLines := h.getLines.map fun lines => lines.add rest }
  | _ => none

/-- `get_began_for`. -/
def getBeganFor (h : Harness) (command : List Char) : Bool :=
  match h.getAccum with
  | none => false
  | some accum =>
    if ['G', 'E', 'T', ' '].isPrefixOf command then
      match decodeText ((command.drop 4).filter fun c => !c.isWhitespace && c.toNat ≠ 12) with
      | .ok path => fromUtf8Lossy path = accum.path
      | .error _ => false
    else false

/-- A reply that completes a command. -/
def complete (h : Harness) : Harness := { h.dropGet with inFlight := none }

/-- `handle_reply_line` of a command, and `complete_in_flight`. -/
def replyLine (h : Harness) (command : List Char) (line : Line) : Harness :=
  match line with
  | .outBeg rest => { h with outAccum := some (beginOut rest), outLines := some ⟨rest, []⟩ }
  | .outChunk rest =>
    { h with
      outAccum := h.outAccum.map fun accum => accumOutChunk accum rest
      outLines := h.outLines.map fun lines => lines.add rest }
  | .outEnd rest =>
    complete { h with
      outAccum := none
      outLines := none
      reports := ⟨h.outLines, rest, finishOut h.outAccum rest⟩ :: h.reports }
  | .getEnd _ => if h.getBeganFor command then h.complete else h
  | .err | .done => h.complete
  | .getBeg _ | .getChunk _ => h

/-- `apply_finished_share_get`; without the folder of the share, `host` is empty. -/
def applyFinishedShareGet (h : Harness) (name : List Char) (finished : GetAccum) (lines : Option Opened)
    (host : Option WriteResult) : Harness :=
  if finished.bytes.length ≠ finished.total then h
  else
    match h.share, host with
    | some share, some result =>
      match share.engine.onGuestFile name finished.bytes none with
      | (engine, .writeHost bytes) =>
        match result with
        | .wrote mtimeMs =>
          { h with
            share := some { share with engine := engine.onHostWriteSucceeded name mtimeMs }
            files := (lines.map fun opened => ⟨opened, name, bytes⟩).toList ++ h.files }
        | .failed persistent =>
          match engine.onHostWriteError name persistent with
          | (_, true) => { h with share := none }
          | (engine, false) => { h with share := some { share with engine } }
      | (engine, _) => { h with share := some { share with engine } }
    | _, _ => h

/-- `handle_share_get_reply`. -/
def shareGetReply (h : Harness) (name : List Char) (line : Line) (host : Option WriteResult) : Harness :=
  match line with
  | .getEnd _ =>
    match h.share, h.getAccum with
    | some share, some finished =>
      if finished.path = shareGuestPath share.guestDir name then
        { h.dropGet.applyFinishedShareGet name finished h.getLines host with inFlight := none }
      else h
    | _, _ => h
  | .err => h.complete
  | _ => h

/-- `handle_service_reply_with_sender`. -/
def serviceReply (h : Harness) (line : Line) (host : Option WriteResult) : Harness :=
  match h.inFlight with
  | none => h
  | some (.ctl command) => (h.getFragment line).getD (h.replyLine command line)
  | some (.shareGet name) => (h.getFragment line).getD (h.shareGetReply name line host)
  | some .clipImagePull =>
    (h.getFragment line).getD (match line with | .getEnd _ | .err => h.complete | _ => h)
  | some .other => match line with | .done => { h with inFlight := none } | _ => h

/-- A request goes on the wire: a GET inherits no fragments. -/
def send (h : Harness) (request : Request) : Harness :=
  match request with
  | .shareGet _ => if h.share.isSome then { h.dropGet with inFlight := some request } else h
  | .clipImagePull => { h.dropGet with inFlight := some request }
  | _ => { h with inFlight := some request }

/-- `resync_after_agent_restart`. -/
def restart (h : Harness) : Harness :=
  { h with inFlight := none, getAccum := none, outAccum := none, getLines := none, outLines := none }

end Harness

inductive Step
  | line (line : Line) (host : Option WriteResult)
  | send (request : Request)
  | restart
  /-- What listings, scans and the rest of the service do to the share. -/
  | share (share : Option ShareState)

def step (h : Harness) : Step → Harness
  | .line line host => h.serviceReply line host
  | .send request => h.send request
  | .restart => h.restart
  | .share share => { h with share }

def run (h : Harness) (steps : List Step) : Harness := steps.foldl step h

/-! ## What a shared file should be -/

namespace FileEvent

/-- The chunks are one for each number that was declared, in order, and the file is what they hold, of the declared
length. -/
def Exact (f : FileEvent) : Prop :=
  ∃ parts, parts.length = (beginGet f.opened.beg).nchunks ∧ f.opened.chunks.map chunkFields = numbered parts ∧
    f.bytes = parts.flatten ∧ f.bytes.length = (beginGet f.opened.beg).total

/-- The chunk lines are numbered as declared, and what they hold has the declared length. -/
def Numbered (f : FileEvent) : Prop :=
  ∃ parts, parts.length = (beginGet f.opened.beg).nchunks ∧ f.opened.chunks.map chunkFields = numbered parts ∧
    parts.flatten.length = (beginGet f.opened.beg).total

end FileEvent

/-! ## What every run keeps -/

/-- The accumulators hold what their lines make, and so do the replies that have ended. -/
structure Inv (h : Harness) : Prop where
  get : h.getAccum = h.getLines.map Opened.get
  out : h.outAccum = h.outLines.map Opened.out
  reports : ∀ e ∈ h.reports, e.report = finishOut (e.opened.map Opened.out) e.stop
  files : ∀ f ∈ h.files, f.bytes = f.opened.get.bytes ∧ f.bytes.length = f.opened.get.total

theorem get_add (o : Opened) (rest : List Char) : (o.add rest).get = accumGetChunk o.get rest := by
  rw [Opened.get, Opened.add, List.foldl_append]
  rfl

theorem out_add (o : Opened) (rest : List Char) : (o.add rest).out = accumOutChunk o.out rest := by
  rw [Opened.out, Opened.add, List.foldl_append]
  rfl

theorem inv_start (share : Option ShareState) : Inv (start share) where
  get := rfl
  out := rfl
  reports := fun _ he => nomatch he
  files := fun _ hf => nomatch hf

variable {h h' : Harness}

theorem Inv.dropGet (hi : Inv h) : Inv h.dropGet := ⟨rfl, hi.out, hi.reports, hi.files⟩

theorem Inv.complete (hi : Inv h) : Inv h.complete := ⟨rfl, hi.out, hi.reports, hi.files⟩

theorem Inv.getFragment {line : Line} (hi : Inv h) (hline : h.getFragment line = some h') : Inv h' := by
  cases line with
  | getBeg rest =>
    cases hline
    exact ⟨rfl, hi.out, hi.reports, hi.files⟩
  | getChunk rest =>
    cases hline
    refine ⟨?_, hi.out, hi.reports, hi.files⟩
    dsimp only
    rw [hi.get, Option.map_map, Option.map_map]
    exact congrArg (fun f => h.getLines.map f) (funext fun o => (get_add o rest).symm)
  | outBeg | outChunk | outEnd | getEnd | err | done => cases hline

theorem Inv.replyLine (hi : Inv h) (command : List Char) (line : Line) : Inv (h.replyLine command line) := by
  cases line with
  | outBeg rest => exact ⟨hi.get, rfl, hi.reports, hi.files⟩
  | outChunk rest =>
    refine ⟨hi.get, ?_, hi.reports, hi.files⟩
    unfold Harness.replyLine
    dsimp only
    rw [hi.out, Option.map_map, Option.map_map]
    exact congrArg (fun f => h.outLines.map f) (funext fun o => (out_add o rest).symm)
  | outEnd rest =>
    refine ⟨rfl, rfl, fun e he => ?_, hi.files⟩
    rcases List.mem_cons.1 he with rfl | he
    · exact congrArg (fun accum => finishOut accum rest) hi.out
    · exact hi.reports e he
  | getEnd rest =>
    unfold Harness.replyLine
    dsimp only
    split
    · exact hi.complete
    · exact hi
  | err | done => exact hi.complete
  | getBeg | getChunk => exact hi

theorem onGuestFile_writeHost {s s' : ShareSync} {name : List Char} {bytes written : List UInt8} {mtime : Option Mtime}
    (h : s.onGuestFile name bytes mtime = (s', .writeHost written)) : written = bytes := by
  unfold ShareSync.onGuestFile at h
  dsimp only at h
  split at h
  · unfold ShareSync.refuseOverCap at h
    cases (Prod.mk.inj h).2
  · split at h
    · split at h
      · cases (Prod.mk.inj h).2
      · exact (GuestFileOutcome.writeHost.inj (Prod.mk.inj h).2).symm
    · split at h
      · cases (Prod.mk.inj h).2
      · exact (GuestFileOutcome.writeHost.inj (Prod.mk.inj h).2).symm

/-- A file that is written is the whole of what was accumulated, of the declared length. -/
theorem Inv.applyFinishedShareGet (hi : Inv h) (name : List Char) (finished : GetAccum) (lines : Option Opened)
    (host : Option WriteResult) (hlines : ∀ o, lines = some o → o.get = finished) :
    Inv (h.applyFinishedShareGet name finished lines host) := by
  unfold Harness.applyFinishedShareGet
  by_cases hshort : finished.bytes.length ≠ finished.total
  · rw [if_pos hshort]
    exact hi
  rw [if_neg hshort]
  have hlen : finished.bytes.length = finished.total := not_not.1 hshort
  cases h.share with
  | none => exact hi
  | some share =>
    cases host with
    | none => exact hi
    | some result =>
      dsimp only
      cases hfile : share.engine.onGuestFile name finished.bytes none with
      | mk engine outcome =>
        cases outcome with
        | alreadySynced => exact ⟨hi.get, hi.out, hi.reports, hi.files⟩
        | skip reason => exact ⟨hi.get, hi.out, hi.reports, hi.files⟩
        | writeHost bytes =>
          obtain rfl := onGuestFile_writeHost hfile
          cases result with
          | wrote mtimeMs =>
            refine ⟨hi.get, hi.out, hi.reports, fun f hf => ?_⟩
            rcases List.mem_append.1 hf with hf | hf
            · obtain ⟨o, ho, rfl⟩ := Option.map_eq_some_iff.1 (Option.mem_toList.1 hf)
              exact ⟨by rw [hlines o ho], by rw [hlines o ho]; exact hlen⟩
            · exact hi.files f hf
          | failed persistent =>
            dsimp only
            cases engine.onHostWriteError name persistent with
            | mk engine exhausted =>
              cases exhausted with
              | true => exact ⟨hi.get, hi.out, hi.reports, hi.files⟩
              | false => exact ⟨hi.get, hi.out, hi.reports, hi.files⟩

theorem Inv.shareGetReply (hi : Inv h) (name : List Char) (line : Line) (host : Option WriteResult) :
    Inv (h.shareGetReply name line host) := by
  cases line with
  | getEnd rest =>
    unfold Harness.shareGetReply
    dsimp only
    cases h.share with
    | none => exact hi
    | some share =>
      cases hget : h.getAccum with
      | none => exact hi
      | some finished =>
        dsimp only
        split
        · have hlines : ∀ o, h.getLines = some o → o.get = finished := by
            intro o ho
            have hmade := hi.get
            rw [hget, ho] at hmade
            exact (Option.some.inj hmade).symm
          have happlied := hi.dropGet.applyFinishedShareGet name finished h.getLines host hlines
          exact ⟨happlied.get, happlied.out, happlied.reports, happlied.files⟩
        · exact hi
  | err => exact hi.complete
  | outBeg | outChunk | outEnd | getBeg | getChunk | done => exact hi

theorem Inv.serviceReply (hi : Inv h) (line : Line) (host : Option WriteResult) : Inv (h.serviceReply line host) := by
  unfold Harness.serviceReply
  cases h.inFlight with
  | none => exact hi
  | some request =>
    cases request with
    | ctl command =>
      dsimp only
      cases hfragment : h.getFragment line with
      | some h' => exact hi.getFragment hfragment
      | none => exact hi.replyLine command line
    | shareGet name =>
      dsimp only
      cases hfragment : h.getFragment line with
      | some h' => exact hi.getFragment hfragment
      | none => exact hi.shareGetReply name line host
    | clipImagePull =>
      dsimp only
      cases hfragment : h.getFragment line with
      | some h' => exact hi.getFragment hfragment
      | none =>
        cases line with
        | getEnd | err => exact hi.complete
        | outBeg | outChunk | outEnd | getBeg | getChunk | done => exact hi
    | other =>
      cases line with
      | done => exact ⟨hi.get, hi.out, hi.reports, hi.files⟩
      | outBeg | outChunk | outEnd | getBeg | getChunk | getEnd | err => exact hi

theorem Inv.send (hi : Inv h) (request : Request) : Inv (h.send request) := by
  cases request with
  | shareGet name =>
    unfold Harness.send
    dsimp only
    split
    · exact ⟨rfl, hi.out, hi.reports, hi.files⟩
    · exact hi
  | clipImagePull => exact ⟨rfl, hi.out, hi.reports, hi.files⟩
  | ctl | other => exact ⟨hi.get, hi.out, hi.reports, hi.files⟩

theorem Inv.step (hi : Inv h) (s : Step) : Inv (step h s) := by
  cases s with
  | line line host => exact hi.serviceReply line host
  | send request => exact hi.send request
  | restart => exact ⟨rfl, rfl, hi.reports, hi.files⟩
  | share share => exact ⟨hi.get, hi.out, hi.reports, hi.files⟩

theorem inv_run (share : Option ShareState) (steps : List Step) : Inv (run (start share) steps) := by
  induction steps using List.reverseRecOn with
  | nil => exact inv_start share
  | append_singleton steps s ih =>
    rw [run, List.foldl_append]
    exact ih.step s

/-! ## Replies -/

theorem bounded_get (o : Opened) : o.get.Bounded := by
  unfold Opened.get
  induction o.chunks using List.reverseRecOn with
  | nil => exact bounded_beginGet o.beg
  | append_singleton chunks rest ih =>
    rw [List.foldl_append]
    exact ih.accumGetChunk rest

theorem bounded_out (o : Opened) : o.out.Bounded := by
  unfold Opened.out
  induction o.chunks using List.reverseRecOn with
  | nil => exact bounded_beginOut o.beg
  | append_singleton chunks rest ih =>
    rw [List.foldl_append]
    exact ih.accumOutChunk rest

theorem exact_iff_numbered {f : FileEvent} (hbytes : f.bytes = f.opened.get.bytes)
    (hlen : f.bytes.length = f.opened.get.total) : f.Exact ↔ f.Numbered := by
  have htotal : f.opened.get.total = (beginGet f.opened.beg).total := foldl_accumGetChunk_total _ _
  constructor
  · rintro ⟨parts, hcount, horder, hflat, hall⟩
    exact ⟨parts, hcount, horder, by rw [← hflat, hall]⟩
  · rintro ⟨parts, hcount, horder, hall⟩
    have hlimit : parts.flatten.length ≤ getLimit (beginGet f.opened.beg).total := by
      have hbounded := bounded_get f.opened
      have hheld := hbounded.held
      rw [← hbytes, hlen, hbounded.reserved, htotal] at hheld
      rw [hall]
      exact hheld
    have hparts : f.opened.get.bytes = parts.flatten := foldl_accumGetChunk rfl horder hlimit
    exact ⟨parts, hcount, horder, by rw [hbytes, hparts], by rw [hlen, htotal]⟩

/-- In every run an output is reported exactly as it was sent, and as a protocol error otherwise; what is held is
bounded by what was declared; and a shared file is what it should be exactly when its chunks came numbered. -/
theorem replies_exact (share : Option ShareState) (steps : List Step) :
    (∀ e ∈ (run (start share) steps).reports, ∀ exitCode bytes, e.report = .output exitCode bytes ↔
      ∃ o, e.opened = some o ∧ Transmits o.beg o.chunks e.stop exitCode bytes) ∧
    (∀ accum, (run (start share) steps).getAccum = some accum → accum.Bounded) ∧
    (∀ accum, (run (start share) steps).outAccum = some accum → accum.Bounded) ∧
    ∀ f ∈ (run (start share) steps).files, f.Exact ↔ f.Numbered := by
  have hi := inv_run share steps
  refine ⟨fun e he exitCode bytes => ?_, fun accum haccum => ?_, fun accum haccum => ?_, fun f hf => ?_⟩
  · rw [hi.reports e he]
    cases e.opened with
    | none => exact ⟨fun h => (nomatch h), fun ⟨o, ho, _⟩ => nomatch ho⟩
    | some o =>
      refine finishOut_eq_output_iff.trans ⟨fun h => ⟨o, rfl, h⟩, ?_⟩
      rintro ⟨o', ho, h⟩
      cases ho
      exact h
  · obtain ⟨o, -, rfl⟩ := Option.map_eq_some_iff.1 (hi.get.symm.trans haccum)
    exact bounded_get o
  · obtain ⟨o, -, rfl⟩ := Option.map_eq_some_iff.1 (hi.out.symm.trans haccum)
    exact bounded_out o
  · obtain ⟨hbytes, hlen⟩ := hi.files f hf
    exact exact_iff_numbered hbytes hlen

/-- A shared file whose second chunk came first. -/
def swappedChunks : List Step :=
  [.send (.shareGet ['f']), .line (.getBeg "U1xm 6 2".toList) none, .line (.getChunk "1 YmFy".toList) none,
    .line (.getChunk "0 Zm9v".toList) none, .line (.getEnd ['2']) (some (.wrote none))]

/-- It is written, as `barfoo`. -/
theorem swapped_chunks_written : ¬ ∀ share steps, ∀ f ∈ (run (start share) steps).files, f.Exact := by
  intro hall
  have hrun : (run (start (some ⟨ShareSync.new 1, ['S']⟩)) swappedChunks).files.map
      (fun f => f.opened.chunks.map chunkFields) =
        [[some (1, [98, 97, 114]), some (0, [102, 111, 111])]] := by
    decide +kernel
  obtain ⟨f, hfiles, hchunks⟩ := List.map_eq_singleton_iff.1 hrun
  obtain ⟨parts, -, horder, -⟩ := hall _ _ f (hfiles ▸ List.mem_singleton_self f)
  rw [hchunks] at horder
  cases parts with
  | nil => cases horder
  | cons part parts => simp [numbered] at horder

end BridgeVm.AgentConsole.ChunkedReplies
