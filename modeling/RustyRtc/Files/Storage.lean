import RustyRtc.Files.Requests
import RustyRtc.Foundation.Execution

/-! # Where received files go

A name travels from the peer's offer to the listener unchanged: through the association, the engine's queue, the
window and the user's consent. The listener joins it to the storage directory as it is. Names that do not lead out
of a directory keep everything that is made for the files in there.
-/
namespace RustyRtc.Files
open Sctp FileHandler

/-- What one client sees: turns of its own threads, and messages of a peer that may send anything. -/
inductive Move where
  | turn (t : Turn)
  | hear (now : ℕ) (data : Bytes)

namespace Peer
def move (c : Computer) (p : Peer) : Move → Peer
  | .turn t => p.step c t
  | .hear now data => p.hear now data

/-- The places that may be made for a received file of this name: the file and the missing directories on the
way to it. -/
def Makes (c : Computer) (w : Surroundings) (filename : String) (place : Path.Place) : Prop :=
  let fullPath := Path.join c.storagePath filename.toList
  place = Path.resolve c.cwd fullPath ∨ place ∈ Path.ancestors c.cwd fullPath ∧ w.isDir place = false

/-- Every name that the listener has still to take up meets `P`, every place made so far meets `Q`. -/
structure Named (P : String → Prop) (Q : Path.Place → Prop) (p : Peer) : Prop where
  rx : ∀ filename id, .writeFile filename id ∈ p.handler.rx → P filename
  made : ∀ place ∈ p.handler.made, Q place

variable {P : String → Prop} {Q : Path.Place → Prop} {c : Computer} {p : Peer}

/-- The listener makes places for the files it is asked to write, and for nothing else. -/
theorem made_of_handle (w : Surroundings) (h : FileHandler) (event : FileHandlerEvents) {place : Path.Place}
    (hplace : place ∈ (h.handle c w event).1.made) :
    place ∈ h.made ∨ ∃ filename id, event = .writeFile filename id ∧ Makes c w filename place := by
  cases event with
  | writeFile filename id =>
    have hway : ∀ l, l ⊆ ((Path.ancestors c.cwd (Path.join c.storagePath filename.toList)).filter
        fun place => !w.isDir place) → place ∈ l → Makes c w filename place := by
      intro l hl hmem
      obtain ⟨hancestor,hmissing⟩ := List.mem_filter.mp (hl hmem)
      exact .inr ⟨hancestor,by simpa using hmissing⟩
    have hmade : place ∈ h.made ∨ Makes c w filename place := by
      simp only [handle,FileHandler.writeFile] at hplace
      cases hdirs : w.createDirAll with
      | some failure =>
        rw [hdirs] at hplace
        exact (List.mem_append.mp hplace).imp_right (hway _ (List.take_subset _ _))
      | none =>
        rw [hdirs] at hplace
        cases hcreate : w.create with
        | error e =>
          rw [hcreate] at hplace
          exact (List.mem_append.mp hplace).imp_right (hway _ (List.Subset.refl _))
        | ok _ =>
          rw [hcreate] at hplace
          simp only [insert_made,List.append_assoc,List.mem_append,List.mem_singleton] at hplace
          rcases hplace with hold | hdir | hfile
          · exact .inl hold
          · exact .inr (hway _ (List.Subset.refl _) hdir)
          · exact .inr (.inl hfile)
    exact hmade.imp_right fun hmakes => ⟨filename,_,rfl,hmakes⟩
  | readFile path id =>
    simp only [handle,FileHandler.readFile] at hplace
    cases hdisk : c.disk path <;> simp [hdisk,send] at hplace <;> exact .inl hplace
  | _ => exact .inl (by simpa [handle] using hplace)

/-- The offer that the window shows when the user acts. -/
def shownOffer (p : Peer) : Option SctpFileProperties :=
  match (p.frame none).fileTransferState with
  | .remoteOffered props => some props
  | _ => none

theorem Named.ask (h : p.Named P Q) {t : Turn} (ht : t.asks = true)
    (haccepts : t = .frame (some .accept) → ∀ props ∈ p.shownOffer, P props.fileName) : (p.step c t).Named P Q := by
  constructor
  · intro filename id hmem
    refine (mem_rx_step ht hmem).elim (h.rx filename id) fun hlistener => ?_
    have hasks := p.asks_request t
    generalize p.request t = r at hlistener hasks
    cases r with
    | press button =>
      cases button with
      | accept props =>
        -- the name of the offer that the user accepts goes to the listener
        cases hlistener
        exact haccepts hasks.accept.1 props (by simp [shownOffer,hasks.accept.2])
      | _ => cases hlistener
    | pass event => cases event <;> cases hlistener
    | _ => cases hlistener
  · rw [handler_step c ht]
    exact h.made

@[simp] theorem work_made (i : ℕ) (r : FileHandler.CallResult) (h : FileHandler) : (h.work i r).made = h.made := by
  unfold work
  split <;> rfl

theorem Named.step (h : p.Named P Q) (t : Turn)
    (haccepts : t = .frame (some .accept) → ∀ props ∈ p.shownOffer, P props.fileName)
    (hmakes : ∀ w filename id rest, t = .listen w → p.handler.rx = .writeFile filename id :: rest → P filename →
      ∀ place, Makes c w filename place → Q place) : (p.step c t).Named P Q := by
  cases t with
  | listen w =>
    rw [Peer.step,FileHandler.listen]
    cases hrx : p.handler.rx with
    | nil => simpa [hrx] using h
    | cons event rest =>
      have hle := h.rx
      rw [hrx] at hle
      constructor
      · intro filename id hmem
        exact hle filename id (List.mem_cons_of_mem _ (mem_rx_of_handle c hmem (by simp)))
      · intro place hplace
        rcases made_of_handle w _ event hplace with hold | ⟨filename,id,rfl,hmade⟩
        · exact h.made place hold
        · exact hmakes w filename id rest rfl hrx (hle filename id (by simp)) place hmade
  | work t r =>
    -- no worker asks for a file to be written
    refine ⟨fun filename id hmem => h.rx filename id (mem_rx_of_work hmem fun _ => rfl),?_⟩
    simpa [Peer.step] using h.made
  | transmit | checkTimeouts | connected | close => exact ⟨h.rx,h.made⟩
  | report =>
    rw [Peer.step,Peer.report]
    split
    · exact h
    · exact ⟨h.rx,h.made⟩
  | poll | drain _ | frame _ => exact h.ask rfl haccepts
  | stop =>
    rw [Peer.step,Peer.stop]
    split
    · exact ⟨h.rx,h.made⟩
    · exact h
def writesNext (p : Peer) : Bool :=
  match p.handler.rx with
  | .writeFile _ _ :: _ => true
  | _ => false

/-- The user accepts only offers with a confined name, and when the listener makes a file the directories above the
storage directory are there. -/
def Safe (c : Computer) (p : Peer) : Move → Prop
  | .turn (.frame (some .accept)) => ∀ props ∈ p.shownOffer, Path.Confined props.fileName.toList
  | .turn (.listen w) => p.writesNext = true →
      ∀ place ∈ Path.way c.cwd c.storagePath, place ≠ c.storage → w.isDir place = true
  | _ => True
instance (c : Computer) (p : Peer) : DecidablePred (Safe c p) := fun m => by
  unfold Safe
  split <;> infer_instance

/-- As long as the accepted names are confined, every file and directory that is made for a received file lies in
the storage directory. -/
theorem received_files_in_storage (c : Computer) (moves : List Move) (h : Along (move c) (Safe c) {} moves) :
    ∀ place ∈ (moves.foldl (move c) {}).handler.made, Path.Inside c.storage place := by
  have hstart : Named (fun filename => Path.Confined filename.toList) (Path.Inside c.storage) {} := ⟨by simp,by simp⟩
  refine (h.invariant (I := Named _ _) ?_ hstart).made
  intro p m hp hm
  cases m with
  | hear now data => exact ⟨hp.rx,hp.made⟩
  | turn t =>
    refine hp.step t (fun ht => ?_) ?_
    · subst ht
      exact hm
    · rintro w filename id rest rfl hrx hname place (rfl | ⟨hancestor,hmissing⟩)
      · exact hname.inside_resolve
      · rcases hname.inside_ancestor hancestor with hway | hinside
        · -- the way to the storage directory is there already, but for the directory itself
          by_cases hplace : place = c.storage
          · exact hplace ▸ List.prefix_rfl
          · rw [hm (by simp [writesNext,hrx]) place hway hplace] at hmissing
            cases hmissing
        · exact hinside

def atHome : Computer :=
  { cwd := ["home".toList]
    sectionStoragePath := none
    globalStoragePath := none
    disk := fun _ => .error "No such file or directory" }
def yielding (depth : ℕ) : Surroundings :=
  { isDir := fun place => place.length ≤ depth, createDirAll := none, create := .ok () }

/-- Every call on the files succeeds. -/
def ready : Surroundings := { isDir := fun _ => true, createDirAll := none, create := .ok () }
def oneFile : Computer :=
  { cwd := [], sectionStoragePath := none, globalStoragePath := none, disk := fun _ => .ok [1,2] }
def showOffer (filename : String) : List Move :=
  [.hear 0 ((SctpProtocolMessage.offer 7 filename 1).serialize.toOption.getD []), .turn .report, .turn .poll]
def acceptOffer (depth : ℕ) (filename : String) : List Move :=
  showOffer filename ++ [.turn (.frame (some .accept)), .turn (.listen (yielding depth))]

/-- The name that was offered decides where the file is made: above the storage directory, or anywhere. -/
theorem offered_name_leaves_storage :
    ((acceptOffer 2 "../x").foldl (move atHome) {}).handler.made = [["home".toList,"x".toList]] ∧
      ¬ Path.Inside atHome.storage ["home".toList,"x".toList] ∧
      ((acceptOffer 2 "/etc/cron/x").foldl (move atHome) {}).handler.made =
        [["etc".toList,"cron".toList,"x".toList]] ∧
      ¬ Path.Inside atHome.storage ["etc".toList,"cron".toList,"x".toList] := by
  decide +kernel

/-- An offer that would lead out is rejected, and the first file makes the storage directory. -/
theorem received_in_subdirectory :
    let moves := showOffer "../x" ++ .turn (.frame (some .reject)) :: acceptOffer 1 "a/x"
    (moves.foldl (move atHome) {}).handler.made =
        [["home".toList,"downloads".toList],["home".toList,"downloads".toList,"a".toList],
          ["home".toList,"downloads".toList,"a".toList,"x".toList]] ∧
      ∀ place ∈ (moves.foldl (move atHome) {}).handler.made, Path.Inside atHome.storage place := by
  intro moves
  exact ⟨by decide +kernel,received_files_in_storage atHome moves (by decide +kernel)⟩
end Peer
end RustyRtc.Files
