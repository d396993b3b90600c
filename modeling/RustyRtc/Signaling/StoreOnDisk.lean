import RustyRtc.Foundation.Execution
import RustyRtc.Foundation.Paths
import RustyRtc.Signaling.FileUserStore

/-! # The user store on its disk

The temporary file is named after the store: its name with the extension `tmp`. As long as that is another name,
the store is the one with two separate files, and a registration happens as a whole or not at all. A store that
is itself named so is its own temporary file.
-/
namespace RustyRtc.Signaling

abbrev Disk := Path.Place → Option Bytes

namespace Disk
def write (disk : Disk) (place : Path.Place) (contents : Bytes) : Disk := fun q => if q = place then some contents else disk q
def rename (disk : Disk) (src dst : Path.Place) : Disk := fun q =>
  if q = dst then disk src else if q = src then none else disk q
end Disk
structure StorePath where
  dir : Path.Place
  name : Text
  deriving DecidableEq, Repr

namespace StorePath
def file (p : StorePath) : Path.Place := p.dir ++ [p.name]
def tmp (p : StorePath) : Path.Place := p.dir ++ [Path.withExtension p.name "tmp".toList]
end StorePath
structure StoreOnDisk where
  users : Users
  disk : Disk

namespace StoreOnDisk
variable (path : StorePath)
def persist (order : Iteration ((_ : UserName) × UserEntry)) (fault : Option PersistFault) (users : Users)
    (disk : Disk) : Disk × Except IoErrorKind Unit :=
  let buf := utf8 (String.ofList (renderUsers (order.order users.entries)))
  match fault with
  | some .create => (disk, .error .other)
  | some (.write n) => (disk.write path.tmp (buf.take n), .error .other)
  | some .flush | some .rename => (disk.write path.tmp buf, .error .other)
  | none => ((disk.write path.tmp buf).rename path.tmp path.file, .ok ())

variable (sha256 : Bytes → Block 32)
def register (store : StoreOnDisk) (call : RegisterCall) : StoreOnDisk × Except RegisterError Unit :=
  (registerIn sha256 (persist path call.choices.order call.choices.fault) store.users store.disk call.choices.salt
    call.username call.password).map (fun s => ⟨s.1,s.2⟩) id

def files (store : StoreOnDisk) : FileUserStore := ⟨store.users,store.disk path.file,store.disk path.tmp⟩

variable {path}
theorem files_persist (hpath : path.tmp ≠ path.file) (order : Iteration ((_ : UserName) × UserEntry))
    (fault : Option PersistFault) (users : Users) (disk : Disk) :
    Signaling.persist order fault users ⟨disk path.file,disk path.tmp⟩ =
      (⟨(persist path order fault users disk).1 path.file,(persist path order fault users disk).1 path.tmp⟩,
        (persist path order fault users disk).2) := by
  have hpath' := hpath.symm
  rcases fault with _ | _ | n | _ | _ <;>
    simp [persist,Signaling.persist,Disk.write,Disk.rename,hpath,hpath']

/-- If the temporary file is another file, the store on its disk is the one with two files. -/
theorem files_register (hpath : path.tmp ≠ path.file) (store : StoreOnDisk) (call : RegisterCall) :
    Signaling.register sha256 (store.files path) call.choices call.username call.password =
      ((register path sha256 store call).1.files path,(register path sha256 store call).2) := by
  unfold Signaling.register register registerIn
  split
  · rfl
  · split
    · rfl
    · split
      · rfl
      · have husers : (store.files path).users = store.users := rfl
        rw [husers]
        split
        · rfl
        · have hfiles : (store.files path).files = ⟨store.disk path.file,store.disk path.tmp⟩ := rfl
          dsimp only
          rw [hfiles,files_persist hpath]
          generalize persist path call.choices.order call.choices.fault _ store.disk = written
          rcases written with ⟨disk,_ | _⟩ <;> rfl

/-- A call that fails leaves the users and the file as they were; a call that succeeds leaves a file with the users,
one line each. -/
def AllOrNothing (path : StorePath) (store : StoreOnDisk) (r : StoreOnDisk × Except RegisterError Unit) : Prop :=
  match r.2 with
  | .error _ => r.1.users = store.users ∧ r.1.disk path.file = store.disk path.file
  | .ok _ => ∃ l, l.Perm r.1.users.entries ∧ r.1.disk path.file = some (utf8 (String.ofList (renderUsers l)))

theorem register_allOrNothing (hpath : path.tmp ≠ path.file) (store : StoreOnDisk) (call : RegisterCall) :
    AllOrNothing path store (register path sha256 store call) := by
  have hfiles := files_register sha256 hpath store call
  rcases register_cases sha256 (store.files path) call.choices call.username call.password with
    ⟨e,hrun⟩ | ⟨-,files,hrun,hfile⟩ | ⟨-,-,-,-,users,-,hrun⟩
  · obtain ⟨hstore,hresult⟩ := Prod.mk.inj (hfiles.symm.trans hrun)
    rw [AllOrNothing,hresult]
    exact ⟨congrArg FileUserStore.users hstore,congrArg (·.files.file) hstore⟩
  · obtain ⟨hstore,hresult⟩ := Prod.mk.inj (hfiles.symm.trans hrun)
    rw [AllOrNothing,hresult]
    exact ⟨congrArg FileUserStore.users hstore,(congrArg (·.files.file) hstore).trans hfile⟩
  · obtain ⟨hstore,hresult⟩ := Prod.mk.inj (hfiles.symm.trans hrun)
    have husers : (register path sha256 store call).1.users = users := congrArg FileUserStore.users hstore
    rw [AllOrNothing,hresult]
    refine ⟨_,?_,congrArg (·.files.file) hstore⟩
    rw [husers]
    exact call.choices.order.perm _

def InStep (path : StorePath) (store : StoreOnDisk) : Prop :=
  store.users = ∅ ∧ store.disk path.file = none ∨ ∃ l, l.Perm store.users.entries ∧
    store.disk path.file = some (utf8 (String.ofList (renderUsers l)))

theorem AllOrNothing.inStep {store : StoreOnDisk} {r : StoreOnDisk × Except RegisterError Unit}
    (h : AllOrNothing path store r) (hstore : store.InStep path) : r.1.InStep path := by
  unfold AllOrNothing at h
  split at h
  · rw [InStep,h.1,h.2]
    exact hstore
  · exact .inr h

/-- Whatever fails in a sequence of registrations, each of them happens as a whole or not at all, provided that the
temporary file has another name. So the file holds the users after the sequence if it did before. -/
theorem registrations_all_or_nothing (hpath : Path.withExtension path.name "tmp".toList ≠ path.name) (store : StoreOnDisk)
    (calls : List RegisterCall) :
    Along (fun s call => (register path sha256 s call).1)
        (fun s call => AllOrNothing path s (register path sha256 s call)) store calls ∧
      (store.InStep path → (calls.foldl (fun s call => (register path sha256 s call).1) store).InStep path) := by
  have hplaces : path.tmp ≠ path.file := by
    intro h
    exact hpath (List.singleton_inj.mp (List.append_cancel_left h))
  have hcall := register_allOrNothing sha256 hplaces
  have halong : Along (fun s call => (register path sha256 s call).1)
      (fun s call => AllOrNothing path s (register path sha256 s call)) store calls := by
    induction calls generalizing store with
    | nil => trivial
    | cons call calls ih => exact ⟨hcall store call,ih _⟩
  exact ⟨halong,halong.invariant fun s call hs hc => hc.inStep hs⟩

def signsUp (username : UserName) (fault : Option PersistFault) : RegisterCall :=
  ⟨username,"password",⟨⟨.replicate 16 1,rfl⟩, .plain,fault⟩⟩

theorem registrations_all_or_nothing_db :
    let path : StorePath := ⟨[],"users.db".toList⟩
    let calls := [signsUp "ada" none,signsUp "bob" (some (.write 10)),signsUp "bob" none]
    Along (fun s call => (register path firstBytes s call).1)
        (fun s call => AllOrNothing path s (register path firstBytes s call)) ⟨∅,fun _ => none⟩ calls ∧
      (InStep path ⟨∅,fun _ => none⟩ →
        (calls.foldl (fun s call => (register path firstBytes s call).1) ⟨∅,fun _ => none⟩).InStep path) :=
  registrations_all_or_nothing firstBytes (by decide +kernel) _ _

/-- In a file `users.tmp`: the second registration fails, and the file that held the first user is empty. -/
theorem failed_registration_empties_tmp :
    let path : StorePath := ⟨[],"users.tmp".toList⟩
    let store := (register path firstBytes ⟨∅,fun _ => none⟩ (signsUp "ada" none)).1
    let r := register path firstBytes store (signsUp "bob" (some (.write 0)))
    (r.2.isOk = false ∧ store.disk path.file ≠ some [] ∧ r.1.disk path.file = some []) ∧ ¬ AllOrNothing path store r := by
  intro path store r
  have hrun : r.2.isOk = false ∧ store.disk path.file ≠ some [] ∧ r.1.disk path.file = some [] := by decide +kernel
  refine ⟨hrun,fun h => ?_⟩
  unfold AllOrNothing at h
  split at h
  · exact hrun.2.1 (h.2.symm.trans hrun.2.2)
  · next hok =>
    rw [hok] at hrun
    cases hrun.1
end StoreOnDisk
end RustyRtc.Signaling
