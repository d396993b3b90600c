import RustyRtc.Files.Consent
import RustyRtc.Files.Upload

/-! # The file that arrives

Both clients together, from their start. Under one id one file is sent, from the left to the right; under other ids
anything may go on in both directions. The right of way passes from the offer to its acceptance and to the request
for chunks, so that no gate of the upload or of the download opens after chunks have come.
-/
namespace RustyRtc.Files
open Sctp Core Peer FileHandler

def sends (id : UInt32) : Act → Bool
  | .turn _ (.frame (some (.sendFile _ id'))) => id' = id
  | _ => false

/-- One file is sent under the id, from the left. -/
structure OneTransfer (computers : Side → Computer) (id : UInt32) (file : Bytes) (acts : List Act) : Prop where
  once : acts.countP (sends id) ≤ 1
  source : ∀ who input, .turn who (.frame (some (.sendFile input id))) ∈ acts →
    who = .left ∧ (computers .left).disk (trim input) = .ok file

/-- The association takes the chunk of the transfer that the act gives it, if it gives one. -/
def ChunkTaken (id : UInt32) (link : Link) : Act → Prop
  | .turn .left t => (link .left).ChunkWritten id t
  | _ => True
def busy (id : UInt32) (h : FileHandler) (read : List Bytes) : ℕ := if h.Asked id ∨ read ≠ [] then 1 else 0

/-- A transfer from `p` to `q` under way, with the log kept beside `q`; `budget` is how often the user will still send a
file under the id. -/
structure Underway (c c' : Computer) (id : UInt32) (file : Bytes) (p q : Peer) (budget : ℕ) (read : List Bytes)
    (log : List Entry) : Prop where
  upload : p.Upload c id file read (log.filterMap (Entry.heardOf id))
  download : History.Sound c' ⟨q,log⟩
  consent : log.Pairwise fun x y => Entry.receivedOf id x ≠ none → ∀ filename, y ≠ .accepted id filename
  reported : q.Reported id → q.Finished id
  /-- One thing at a time is on its way: the offer, its acceptance, or the file. -/
  turn : budget + p.offersOut id + q.offersIn id + q.acceptsOut id + p.acceptsIn id + busy id p.handler read ≤ 1
  reader : budget + p.handler.started id ≤ 1
  writer : budget + p.offersOut id + q.offersIn id + q.handler.started id ≤ 1
  oneWay : p.offersIn id = 0 ∧ p.acceptsOut id = 0 ∧ q.offersOut id = 0

namespace Underway
variable {c c' : Computer} {id : UInt32} {file : Bytes} {p q : Peer} {budget : ℕ} {read : List Bytes} {log : List Entry}
variable {data : Bytes} {rest : List Bytes} {h : FileHandler} {t : Turn}
theorem start (hbudget : budget ≤ 1) : Underway c c' id file {} {} budget [] [] where
  upload := {
    thread := by simp [threadsOf]
    fresh := fun _ => rfl
    emitted := ⟨[],by simp, .inl ⟨rfl,by simp⟩⟩
    asked := by simp
    noWriter := by simp
    ahead := .nil
    pending := by simp
    flows := Flows.of_held_eq_nil rfl }
  download := History.sound_run c' []
  consent := .nil
  reported := by simp [Peer.Reported]
  turn := by
    have hnot : ¬ FileHandler.Asked id {} := by simp [FileHandler.Asked,threadsOf]
    simpa [busy,hnot,offersOut,offersIn,acceptsOut,acceptsIn,SctpSession.outgoing,
      SctpSession.posted,isRemoteOffered] using hbudget
  reader := by simpa [started,threadsOf] using hbudget
  writer := by
    simpa [offersOut,offersIn,SctpSession.outgoing,SctpSession.posted,isRemoteOffered,started,
      threadsOf] using hbudget
  oneWay := by
    simp [offersOut,offersIn,acceptsOut,SctpSession.outgoing,SctpSession.posted,isRemoteOffered]

theorem busy_of_read (hread : read ≠ []) : busy id h read = 1 := if_pos (.inr hread)

/-- What has been received under the id has been read. -/
theorem received_initial (h : Underway c c' id file p q budget read log) :
    log.filterMap (Entry.receivedOf id) <+: read := by
  have hheard : log.filterMap (Entry.receivedOf id) <+: log.filterMap (Entry.heardOf id) := by
    rw [h.download.engine id]
    exact List.prefix_append _ _
  exact hheard.trans ((List.prefix_append _ _).trans h.upload.flows.initial)

theorem busy_le (read : List Bytes) {h' : FileHandler} {accepts accepts' : ℕ} {new : List Bytes} (haccepts : accepts' ≤ accepts)
    (hasked : accepts' + h'.asking id ≤ accepts + h.asking id) (hnew : new ≠ [] → h.Asked id) :
    accepts' + busy id h' (read ++ new) ≤ accepts + busy id h read := by
  by_cases hbusy : h.Asked id ∨ read ≠ []
  · have hone : busy id h' (read ++ new) ≤ 1 := by
      unfold busy
      split <;> simp
    have hall : busy id h read = 1 := if_pos hbusy
    omega
  · obtain ⟨hnot,hread⟩ := not_or.mp hbusy
    have hnone : new = [] := by_contra fun hne => hnot (hnew hne)
    rw [not_not] at hread
    subst hread hnone
    simpa [busy,asking,hnot] using hasked

theorem opening (h : Underway c c' id file p q budget read log) (hread : read ≠ []) :
    p.offersOut id = 0 ∧ p.acceptsOut id = 0 ∧ q.offersIn id = 0 ∧ q.acceptsOut id = 0 := by
  have hturn := h.turn
  rw [busy_of_read hread] at hturn
  exact ⟨by omega,h.oneWay.2.1,by omega,by omega⟩

/-- A turn of the sending side, in which the user may send the file. -/
theorem turn_left {k : ℕ} (h : Underway c c' id file p q (budget + k) read log)
    (hdisk : ∀ input, t = .frame (some (.sendFile input id)) → c.disk (trim input) = .ok file)
    (hwritten : p.ChunkWritten id t) (hadds : Adds id p (p.step c t) k 0 0 0 k) :
    ∃ new, Underway c c' id file (p.step c t) q budget (read ++ new) log := by
  have hturn := h.turn
  have hreader := h.reader
  have hwriter := h.writer
  obtain ⟨hin,hout,hquiet⟩ := h.oneWay
  obtain ⟨new,hupload,hasked⟩ := h.upload.step (by omega) hin (fun hread => ⟨(h.opening hread).1,hout⟩) hdisk hwritten
  obtain ⟨k₁,k₂,k₃,k₄,k₅,k₆⟩ := hadds
  have hbusy := busy_le read k₅ k₁ hasked
  exact ⟨new,hupload,h.download,h.consent,h.reported,by omega,by omega,by omega,by omega,by omega,hquiet⟩

/-- A file is accepted under the id before anything is received. -/
theorem consent_append (h : Underway c c' id file p q budget read log) {m : Move}
    (hm : ∀ filename, .accepted id filename ∈ History.entries q m → read = []) :
    (log ++ History.entries q m).Pairwise fun x y =>
      Entry.receivedOf id x ≠ none → ∀ filename, y ≠ .accepted id filename := by
  refine List.pairwise_append.mpr ⟨h.consent,History.pairwise_entries _ q m,?_⟩
  rintro x hx y hy hreceived filename rfl
  have hinitial := h.received_initial
  rw [hm filename hy,List.prefix_nil,List.filterMap_eq_nil_iff] at hinitial
  exact hreceived (hinitial x hx)

theorem turn_right (h : Underway c c' id file p q budget read log)
    (ht : ∀ input, t ≠ .frame (some (.sendFile input id))) :
    ∃ log', Underway c c' id file p (q.step c' t) budget read log' := by
  have hturn := h.turn
  have hwriter := h.writer
  obtain ⟨hin,hout,hquiet⟩ := h.oneWay
  obtain ⟨h₁,h₂,h₃,h₄,h₅,h₆⟩ := @Peer.Shrinks.step c' q id t ht (by omega)
  refine ⟨log ++ History.entries q (.turn t),?_,h.download.step (.turn t),h.consent_append fun filename hmem => ?_,
    fun hreported => ?_,by omega,h.reader,by omega,hin,hout,by omega⟩
  · rw [List.filterMap_append,History.entries_heardOf,List.append_nil]
    exact h.upload
  · by_contra hread
    have hoffers := History.offersIn_of_accepted c' hmem
    have hnone := (h.opening hread).2.2.1
    omega
  · exact hreported.step.elim (fun hold => (h.reported hold).step t) fun hnew => hnew

theorem outgoing_delivered {s : SctpSession} (hdata : s.stream0 = data :: rest)
    (e : SctpEvents → Bool) (m : SctpProtocolMessage → Bool) : s.outgoing e m =
      SctpSession.outgoing e m { s with stream0 := rest } + if carries m data then 1 else 0 := by
  simp only [SctpSession.outgoing,SctpSession.posted,hdata,List.countP_cons]
  omega

theorem deliver_right (h : Underway c c' id file p q budget read log) (now : ℕ)
    (hdata : p.sctp.stream0 = data :: rest) :
    ∃ log', Underway c c' id file { p with sctp := { p.sctp with stream0 := rest } } (q.hear now data) budget read
      log' := by
  have hturn := h.turn
  have hreader := h.reader
  have hwriter := h.writer
  obtain ⟨hin,hout,hquiet⟩ := h.oneWay
  obtain ⟨k₁,k₂,k₃,k₄,k₅,k₆⟩ := Peer.Adds.hear id q now data
  have hoffers := outgoing_delivered hdata (isSendOffer id) (isOffer id)
  have haccepts := outgoing_delivered hdata (isSendAccept id) (isAccept id)
  obtain ⟨hheard,-,hevent⟩ := History.entries_hear (p := q) id now data
  refine ⟨log ++ History.entries q (.hear now data),?_,h.download.step (.hear now data),
    h.consent_append fun filename hmem => ?_,h.reported,?_,?_,?_,?_,?_,?_⟩
  · rw [List.filterMap_append,hheard]
    exact h.upload.delivered hdata
  · cases List.filterMap_eq_nil_iff.mp hevent _ hmem
  all_goals
    simp only [offersOut,offersIn,acceptsOut,acceptsIn] at *
    omega

theorem deliver_left (h : Underway c c' id file p q budget read log) (now : ℕ) (hdata : q.sctp.stream0 = data :: rest) :
    Underway c c' id file (p.hear now data) { q with sctp := { q.sctp with stream0 := rest } } budget read log := by
  have hturn := h.turn
  have hreader := h.reader
  have hwriter := h.writer
  obtain ⟨hin,hout,hquiet⟩ := h.oneWay
  obtain ⟨k₁,k₂,k₃,k₄,k₅,k₆⟩ := Peer.Adds.hear id p now data
  have hoffers := outgoing_delivered hdata (isSendOffer id) (isOffer id)
  have haccepts := outgoing_delivered hdata (isSendAccept id) (isAccept id)
  have hupload := h.upload.hear now data fun haccept => by_contra fun hread => by
    have hnone := (h.opening hread).2.2.2
    simp only [acceptsOut,haccepts,haccept,if_true] at hnone
    omega
  have hbusy : busy id (p.hear now data).handler read = busy id p.handler read := rfl
  refine ⟨hupload,⟨h.download.listener,h.download.engine⟩,h.consent,h.reported,?_,?_,?_,?_,?_,?_⟩ <;>
    simp only [offersOut,offersIn,acceptsOut,acceptsIn] at * <;> omega

theorem written_eq (h : Underway c c' id file p q budget read log) (hreported : q.Reported id) :
    ∃ t ∈ q.handler.threadsOf id, ∃ w, t.worker = .writer w ∧ w.state = .finished ∧ w.written = file := by
  obtain ⟨t,ht,w,hw,hfinished⟩ := h.reported hreported
  obtain ⟨hmem,hid⟩ := List.mem_filter.mp ht
  obtain ⟨chunks,before,filename,after,hlog,hchunks,hwritten⟩ := h.download.completed hmem hw hfinished
  rw [of_decide_eq_true hid] at hlog hchunks
  have hbefore : before.filterMap (Entry.receivedOf id) = [] := by
    have hconsent := h.consent
    rw [show log = _ from hlog,List.pairwise_append] at hconsent
    refine List.filterMap_eq_nil_iff.mpr fun entry hentry => by_contra fun hreceived => ?_
    exact hconsent.2.2 entry hentry _ (List.mem_cons_self ..) hreceived filename rfl
  have hread := h.received_initial
  rw [show log = _ from hlog,List.filterMap_append,hbefore,List.nil_append] at hread
  refine ⟨t,ht,w,hw,hfinished,?_⟩
  have hflatten := h.upload.emitted.flatten_eq (hchunks.trans hread) (by simp)
  simpa [hwritten] using hflatten
end Underway

namespace Link
variable {computers : Side → Computer} {id : UInt32} {file : Bytes} {link : Link} {acts : List Act}
theorem deliver_cases (link : Link) (dest : Side) (now : ℕ) : link.deliver dest now = link ∨
    ∃ data rest, (link dest.other).sctp.stream0 = data :: rest ∧ link.deliver dest now dest = (link dest).hear now data ∧
      link.deliver dest now dest.other =
        { link dest.other with sctp := { (link dest.other).sctp with stream0 := rest } } := by
  rw [deliver]
  cases (link dest.other).sctp.stream0 with
  | nil => exact .inl rfl
  | cons data rest => exact .inr ⟨data,rest,rfl,by simp [Link.set],by cases dest <;> simp [Link.set,Side.other]⟩

theorem underway_step {a : Act} {read : List Bytes}
    (h : Underway (computers .left) (computers .right) id file (link .left) (link .right)
      ((a :: acts).countP (sends id)) read log)
    (hacts : OneTransfer computers id file (a :: acts)) (htaken : ChunkTaken id link a) :
    ∃ read' log', Underway (computers .left) (computers .right) id file (link.step computers a .left)
      (link.step computers a .right) (acts.countP (sends id)) read' log' := by
  rw [List.countP_cons] at h
  cases a with
  | turn who t =>
    by_cases hsend : ∃ input, t = .frame (some (.sendFile input id))
    · obtain ⟨input,rfl⟩ := hsend
      obtain ⟨rfl,hdisk⟩ := hacts.source who input (by simp)
      rw [if_pos (by simp [sends])] at h
      have hsame : ∀ input', Turn.frame (some (.sendFile input id)) = .frame (some (.sendFile input' id)) →
          (computers .left).disk (trim input') = .ok file := by
        rintro _ ⟨⟩
        exact hdisk
      obtain ⟨new,hafter⟩ := h.turn_left hsame htaken (.sendFile _ _ input id)
      exact ⟨_,_,hafter⟩
    · have hother : sends id (.turn who t) = false := by
        by_contra hsends
        rw [Bool.not_eq_false] at hsends
        cases t with
        | frame action =>
          rcases action with _ | action
          · simp [sends] at hsends
          · cases action with
            | sendFile input id' => exact hsend ⟨input,by rw [of_decide_eq_true hsends]⟩
            | _ => simp [sends] at hsends
        | _ => simp [sends] at hsends
      rw [hother] at h
      have ht : ∀ input, t ≠ .frame (some (.sendFile input id)) := fun input heq => hsend ⟨input,heq⟩
      cases who with
      | left =>
        have hreader := h.reader
        have hshrinks : Shrinks id (link .left) ((link .left).step (computers .left) t) := .step ht (by omega)
        obtain ⟨new,hafter⟩ := h.turn_left (fun input heq => absurd heq (ht input)) htaken
          (hshrinks.adds h.oneWay.1 h.oneWay.2.1)
        exact ⟨_,_,hafter⟩
      | right =>
        obtain ⟨log',hafter⟩ := h.turn_right ht
        exact ⟨_,log',hafter⟩
  | deliver dest now =>
    rw [if_neg (by simp [sends])] at h
    obtain hsame | ⟨data,rest,hdata,hhear,hother⟩ := link.deliver_cases dest now
    · rw [Link.step,hsame]
      exact ⟨_,_,h⟩
    · rw [Link.step]
      cases dest with
      | left =>
        rw [hhear,show link.deliver .left now .right = _ from hother]
        exact ⟨_,_,h.deliver_left now hdata⟩
      | right =>
        rw [hhear,show link.deliver .right now .left = _ from hother]
        exact ⟨_,h.deliver_right now hdata⟩

theorem underway_run {read : List Bytes}
    (h : Underway (computers .left) (computers .right) id file (link .left) (link .right) (acts.countP (sends id)) read log)
    (hacts : OneTransfer computers id file acts) (htaken : Along (Link.step computers) (ChunkTaken id) link acts) :
    ∃ read' log', Underway (computers .left) (computers .right) id file (acts.foldl (Link.step computers) link .left)
      (acts.foldl (Link.step computers) link .right) 0 read' log' := by
  induction acts generalizing link read log with
  | nil => exact ⟨_,_,h⟩
  | cons a acts ih =>
    obtain ⟨read',log',hafter⟩ := underway_step h hacts htaken.1
    refine ih hafter ⟨?_,fun who input hmem => hacts.source who input (List.mem_cons_of_mem _ hmem)⟩ htaken.2
    have honce := hacts.once
    rw [List.countP_cons] at honce
    omega

/-- If the association takes every chunk of the transfer that it is given, a download that is reported as complete
has the bytes of the file. Everything else may fail, and other transfers may go on beside it. -/
theorem downloaded_file_equals_sent (computers : Side → Computer) (id : UInt32) (file : Bytes) (acts : List Act)
    (hacts : OneTransfer computers id file acts)
    (htaken : Along (Link.step computers) (ChunkTaken id) (fun _ => {}) acts)
    (hreported : Peer.Reported id (acts.foldl (Link.step computers) (fun _ => {}) .right)) :
    ∃ t ∈ (acts.foldl (Link.step computers) (fun _ => {}) .right).handler.threadsOf id,
      ∃ w, t.worker = .writer w ∧ w.state = .finished ∧ w.written = file := by
  obtain ⟨read,log,h⟩ := underway_run (Underway.start hacts.once) hacts htaken
  exact h.written_eq hreported

def WritesAll : Act → Prop
  | .turn _ (.transmit _ results) => results 0 = .written
  | _ => True

instance : DecidablePred WritesAll := fun a => by
  cases a with
  | turn who t =>
    cases t with
    | transmit now results => exact inferInstanceAs (Decidable (_ = _))
    | _ => exact isTrue trivial
  | deliver => exact isTrue trivial

def twoBytes : Side → Computer := fun _ => oneFile
def handshake : List Act :=
  [.turn .left (.frame (some (.sendFile ['f'] 7))), .turn .left (.listen ready), .turn .left .poll,
    .turn .left (.transmit 0 fun _ => .written), .deliver .right 0, .turn .right .report, .turn .right .poll,
    .turn .right (.frame (some .accept)), .turn .right (.transmit 0 fun _ => .written), .turn .right (.listen ready),
    .deliver .left 0, .turn .left (.transmit 0 fun _ => .written), .turn .left .report, .turn .left .poll,
    .turn .left (.listen ready), .turn .left (.drain false), .turn .left (.drain false)]

/-- The thread that asks for chunks is in its burst. -/
def round (result : WriteResult) : List Act :=
  [.turn .left (.drain false),.turn .left (.listen ready),.turn .left (.work 0 ⟨.ok 0,.ok⟩),.turn .left (.listen ready),
    .turn .left (.listen ready), .turn .left .poll, .turn .left .poll, .turn .left (.transmit 0 fun _ => result),
    .deliver .right 0, .turn .right .report, .turn .right .poll, .turn .right .poll, .turn .right (.listen ready),
    .turn .right (.listen ready), .turn .right (.work 0 ⟨.ok 0, .ok⟩)]
def ending : List Act :=
  [.turn .right (.listen ready), .turn .right .poll, .turn .right .poll, .turn .right .poll]
def transferRun (results : List WriteResult) : List Act := handshake ++ results.flatMap round ++ ending

theorem oneTransfer_transferRun (results : List WriteResult) : OneTransfer twoBytes 7 [1,2] (transferRun results) where
  once := by
    have hround : ∀ results : List WriteResult, (results.flatMap round).countP (sends 7) = 0 := by
      intro results
      refine List.countP_eq_zero.mpr fun a ha => ?_
      obtain ⟨result,-,hround⟩ := List.mem_flatMap.mp ha
      simp only [round,List.mem_cons,List.not_mem_nil,or_false] at hround
      rcases hround with rfl | rfl | rfl | rfl | rfl | rfl | rfl | rfl | rfl | rfl | rfl | rfl | rfl | rfl | rfl <;>
        simp [sends]
    rw [transferRun,List.countP_append,List.countP_append,hround]
    decide
  source who input hmem := by
    refine ⟨?_,rfl⟩
    simp only [transferRun,List.mem_append,List.mem_flatMap] at hmem
    rcases hmem with (hmem | ⟨result,-,hmem⟩) | hmem
    · simp [handshake] at hmem
      exact hmem.1
    · simp [round] at hmem
    · simp [ending] at hmem

theorem frame_shows {p : Peer} {n : ℕ} (hout : p.out = [.downloadProgress 7 n, .status (downloadComplete 7)]) :
    (p.frame none).fileTransferState = .finished (downloadComplete 7) := by
  have hannounces : announcesDownload (downloadComplete 7) = true := by decide +kernel
  simp [frame,hout,handleEngineEvent,hannounces]

/-- The first byte is lost in a failed write. The other one and the empty chunk arrive, and completion is shown. -/
theorem failed_write_goes_unnoticed :
    OneTransfer twoBytes 7 [1,2] (transferRun [.failed, .written, .written]) ∧
    ((transferRun [.failed, .written, .written]).foldl (step twoBytes) (fun _ => {}) .right).handler.threadsOf 7 =
      [{ id := 7,
         worker := .writer { path := "./downloads/f".toList, written := [2], state := .finished },
         listed := false }] ∧
    (((transferRun [.failed, .written, .written]).foldl (step twoBytes) (fun _ => {}) .right).frame none).fileTransferState =
      .finished (downloadComplete 7) :=
  ⟨oneTransfer_transferRun _,by decide +kernel,frame_shows (n := 1) (by decide +kernel)⟩

theorem downloaded_two_bytes :
    Peer.Reported 7 ((transferRun [.written, .written, .written]).foldl (step twoBytes) (fun _ => {}) .right) ∧
    ∃ t ∈ ((transferRun [.written, .written, .written]).foldl (step twoBytes) (fun _ => {}) .right).handler.threadsOf 7,
      ∃ w, t.worker = .writer w ∧ w.state = .finished ∧ w.written = [1,2] := by
  have hreported : Peer.Reported 7
      ((transferRun [.written, .written, .written]).foldl (step twoBytes) (fun _ => {}) .right) := by
    have hout : ((transferRun [.written, .written, .written]).foldl (step twoBytes) (fun _ => {}) .right).out =
        [.downloadProgress 7 1, .downloadProgress 7 2, .status (downloadComplete 7)] := by decide +kernel
    exact .inr (.inr (.inl (by rw [hout]; simp)))
  refine ⟨hreported,downloaded_file_equals_sent twoBytes 7 [1,2] _ (oneTransfer_transferRun _) ?_ hreported⟩
  have hwritten : ∀ a ∈ transferRun [.written, .written, .written], WritesAll a := by decide
  refine (along_of_forall_mem hwritten _).imp_of_invariant (I := fun _ => True) (fun _ _ _ _ => trivial) ?_ trivial
  rintro link (⟨_ | _,t⟩ | ⟨dest,now⟩) - hall
  · cases t with
    | transmit now results => exact fun _ _ => hall
    | _ => trivial
  · trivial
  · trivial
end Link
end RustyRtc.Files
