import RustyRtc.Foundation.Incoming
import RustyRtc.Foundation.Table
import RustyRtc.Signaling.Auth

/-! # The user store

`signaling/auth/file_user_store.rs`: accounts are kept in memory and written to a text file
after each registration, one line `name:salt:hash` per user with salt and hash in hexadecimal.
The file is written to a temporary name first and then renamed. SHA-256 is a parameter.
-/
namespace RustyRtc.Signaling
variable {b : Bytes} {contents : List Char} {u : UserName}
abbrev Block (n : ℕ) := {b : Bytes // b.length = n}
structure UserEntry where
  salt : Block 16
  hash : Block 32
  deriving DecidableEq, Repr
abbrev Users := Table UserName UserEntry
structure StoreFiles where
  file : Option Bytes
  tmp : Option Bytes
  deriving DecidableEq, Repr
structure FileUserStore where
  users : Users
  files : StoreFiles
def HEX : Bytes := utf8 "0123456789abcdef"
def hexDigit (n : UInt8) : Char := Char.ofNat (HEX.getD n.toNat 0).toNat
def toHex (b : Bytes) : List Char := b.flatMap fun x : UInt8 => [hexDigit (x >>> 4),hexDigit (x &&& 0x0f)]
def hexVal (c : UInt8) : Option UInt8 :=
  if 48 ≤ c ∧ c ≤ 57 then some (c - 48)
  else if 97 ≤ c ∧ c ≤ 102 then some (10 + c - 97)
  else if 65 ≤ c ∧ c ≤ 70 then some (10 + c - 65)
  else none
def hexPairs : Bytes → Option Bytes
  | hi :: lo :: rest => do
    let v := ((← hexVal hi) <<< 4) ||| (← hexVal lo)
    return v :: (← hexPairs rest)
  | _ => some []

theorem hexPairs_length {out : Bytes} (h : hexPairs b = some out) : out.length = b.length / 2 := by
  fun_induction hexPairs b generalizing out with
  | case1 hi lo rest ih =>
    simp only [bind,Option.bind_eq_some_iff,pure,Option.some.injEq] at h
    obtain ⟨x,-,y,-,tail,htail,rfl⟩ := h
    simp only [List.length_cons,ih htail]
    omega
  | case2 b hb =>
    cases h
    match b,hb with
    | [],_ => rfl
    | [_],_ => simp
    | hi :: lo :: rest,hb => exact absurd rfl (hb hi lo rest)

def fromHex (input : List Char) (n : ℕ) : Option (Block n) :=
  let chars := utf8 (String.ofList input)
  if hlen : chars.length = n * 2 then
    match hout : hexPairs chars with
    | some out => some ⟨out,by rw [hexPairs_length hout, hlen]; omega⟩
    | none => none
  else none

theorem nibbles (x : UInt8) : x >>> 4 < 16 ∧ x &&& 0x0f < 16 ∧ (x >>> 4) <<< 4 ||| x &&& 0x0f = x := by
  revert x
  apply forall_byte
  decide +kernel

/-- A digit is one ASCII byte that reads back, and no separator, line end or white space. -/
theorem hexDigit_spec {d : UInt8} (h : d < 16) : (∃ c, String.utf8EncodeChar (hexDigit d) = [c] ∧ hexVal c = some d) ∧
      hexDigit d ≠ ':' ∧ hexDigit d ≠ '\n' ∧ hexDigit d ≠ '\r' ∧ isWhitespace (hexDigit d) = false := by
  obtain ⟨n,rfl⟩ : ∃ n : Fin 16, d = UInt8.ofNat n.val := ⟨⟨d.toNat,h⟩,by simp⟩
  have hcode : ∀ n : Fin 16, String.utf8EncodeChar (hexDigit (.ofNat n.val)) = [HEX.getD n.val 0] ∧
      hexVal (HEX.getD n.val 0) = some (.ofNat n.val) := by decide +kernel
  have hplain : ∀ n : Fin 16, hexDigit (.ofNat n.val) ≠ ':' ∧ hexDigit (.ofNat n.val) ≠ '\n' ∧
      hexDigit (.ofNat n.val) ≠ '\r' ∧ isWhitespace (hexDigit (.ofNat n.val)) = false := by decide +kernel
  exact ⟨⟨_,hcode n⟩,hplain n⟩

theorem hexPairs_toHex_cons (x : UInt8) (c : Bytes) : ∃ hi lo, (toHex (x :: c)).flatMap String.utf8EncodeChar =
        hi :: lo :: (toHex c).flatMap String.utf8EncodeChar ∧
      ∀ b, hexPairs (hi :: lo :: b) = (hexPairs b).map (x :: ·) := by
  obtain ⟨hhi,hlo,hx⟩ := nibbles x
  obtain ⟨⟨hi,ehi,vhi⟩,-⟩ := hexDigit_spec hhi
  obtain ⟨⟨lo,elo,vlo⟩,-⟩ := hexDigit_spec hlo
  refine ⟨hi,lo,?_,fun b => ?_⟩
  · simp [toHex,ehi,elo]
  · cases hb : hexPairs b <;> simp [hexPairs,vhi,vlo,hx,hb]

theorem fromHex_toHex {n : ℕ} (b : Block n) : fromHex (toHex b.val) n = some b := by
  have hpairs : ∀ c : Bytes, (utf8 (String.ofList (toHex c))).length = c.length * 2 ∧
      hexPairs (utf8 (String.ofList (toHex c))) = some c := by
    intro c
    induction c with
    | nil => exact ⟨rfl,rfl⟩
    | cons x c ih =>
      rw [utf8_ofList] at ih ⊢
      obtain ⟨hi,lo,hcons,hread⟩ := hexPairs_toHex_cons x c
      rw [hcons,hread,ih.2,List.length_cons,List.length_cons,List.length_cons,ih.1]
      exact ⟨by omega,rfl⟩
  obtain ⟨hlen,hout⟩ := hpairs b.val
  rw [fromHex,dif_pos (by rw [hlen, b.property])]
  split
  · next out h =>
    obtain rfl : out = b.val := Option.some.inj (h.symm.trans hout)
    rfl
  · next h => simp [hout] at h

theorem toHex_plain {c : Char} (h : c ∈ toHex b) : c ≠ ':' ∧ c ≠ '\n' ∧ c ≠ '\r' ∧ isWhitespace c = false := by
  obtain ⟨x,-,hc⟩ := List.mem_flatMap.mp h
  obtain ⟨hhi,hlo,-⟩ := nibbles x
  simp only [List.mem_cons,List.not_mem_nil,or_false] at hc
  rcases hc with rfl | rfl
  · exact (hexDigit_spec hhi).2
  · exact (hexDigit_spec hlo).2

def parseUserLine (raw : List Char) : Option (UserName × UserEntry) :=
  let line := trim raw
  if line = [] ∨ line.head? = some '#' then none
  else
    match line.splitOn ':' with
    | [username,saltHex,hashHex] => do
      let salt ← fromHex saltHex 16
      let hash ← fromHex hashHex 32
      return (String.ofList username,⟨salt,hash⟩)
    | _ => none

def readUsers (contents : List Char) : Users :=
  ((lines contents).filterMap parseUserLine).foldl (fun users u => users.insert u.1 u.2) ∅

/-- `FileUserStore::open`: a file that does not exist is an empty store. -/
def openStore (files : StoreFiles) : Except IoErrorKind FileUserStore :=
  match files.file with
  | none => .ok ⟨∅,files⟩
  | some bytes =>
    match fromUtf8 bytes with
    | none => .error .invalidData
    | some contents => .ok ⟨readUsers contents.toList,files⟩

theorem openStore_text {files : StoreFiles}
    (h : files.file = some (utf8 (String.ofList contents))) : openStore files = .ok ⟨readUsers contents,files⟩ := by
  simp only [openStore,h,fromUtf8_eq_some.mpr rfl,String.toList_ofList]
def userLine (u : (_ : UserName) × UserEntry) : List Char :=
  u.1.toList ++ ':' :: (toHex u.2.salt.val ++ ':' :: toHex u.2.hash.val)
def renderUsers (l : List ((_ : UserName) × UserEntry)) : List Char := l.flatMap fun u => userLine u ++ ['\n']

/-- A name that is read back from the file as it is: it has no line feed and starts neither with white
space nor with the sign of a comment. -/
def SurvivesReload (username : UserName) : Prop :=
  '\n' ∉ username.toList ∧ ∀ c ∈ username.toList.head?, isWhitespace c = false ∧ c ≠ '#'
instance (username : UserName) : Decidable (SurvivesReload username) :=
  have : Decidable (∀ c ∈ username.toList.head?, isWhitespace c = false ∧ c ≠ '#') :=
    Option.decidableForallMem _
  inferInstanceAs (Decidable (_ ∧ _))

theorem userLine_getLast (u : (_ : UserName) × UserEntry) :
    ∃ c ∈ toHex u.2.hash.val, (userLine u).getLast? = some c := by
  have hne : toHex u.2.hash.val ≠ [] := by
    intro h
    have hlen := u.2.hash.property
    cases hb : u.2.hash.val with
    | nil => simp [hb] at hlen
    | cons x b => simp [hb,toHex] at h
  refine ⟨_,List.getLast_mem hne,?_⟩
  rw [← List.getLast?_eq_some_getLast hne,userLine,List.getLast?_append_of_ne_nil _ (by simp),
    List.getLast?_cons,List.getLast?_append_of_ne_nil _ (by simp),List.getLast?_cons]
  simp [List.getLast?_eq_some_getLast hne]

theorem stripCr_userLine (u : (_ : UserName) × UserEntry) : stripCr (userLine u) = userLine u := by
  obtain ⟨c,hc,hlast⟩ := userLine_getLast u
  rw [stripCr,hlast,if_neg]
  simpa using (toHex_plain hc).2.2.1
theorem splitOn_userLine {u : (_ : UserName) × UserEntry} (hcolon : ':' ∉ u.1.toList) :
    (userLine u).splitOn ':' = [u.1.toList,toHex u.2.salt.val,toHex u.2.hash.val] := by
  rw [userLine, List.splitOn_append_cons_self_of_not_mem hcolon,
    List.splitOn_append_cons_self_of_not_mem fun h => (toHex_plain h).1 rfl,
    List.splitOn_eq_singleton fun h => (toHex_plain h).1 rfl]

theorem parseUserLine_userLine {u : (_ : UserName) × UserEntry} (hcolon : ':' ∉ u.1.toList)
    (hu : SurvivesReload u.1) : parseUserLine (userLine u) = some (u.1,u.2) := by
  have hhead : ∀ c ∈ (userLine u).head?, isWhitespace c = false ∧ c ≠ '#' := by
    intro c hc
    cases hname : u.1.toList with
    | nil =>
      obtain rfl : ':' = c := by simpa [userLine,hname] using hc
      decide
    | cons x name =>
      obtain rfl : x = c := by simpa [userLine,hname] using hc
      exact hu.2 x (by simp [hname])
  obtain ⟨c,hc,hlast⟩ := userLine_getLast u
  have htrim : trim (userLine u) = userLine u := by
    apply trim_eq_self fun c hc => (hhead c hc).1
    intro d hd
    obtain rfl : c = d := Option.some.inj (hlast.symm.trans hd)
    exact (toHex_plain hc).2.2.2
  have hcomment : ¬(userLine u = [] ∨ (userLine u).head? = some '#') := by
    rintro (h | h)
    · simp [h] at hlast
    · exact (hhead '#' h).2 rfl
  simp only [parseUserLine,htrim,if_neg hcomment,splitOn_userLine hcolon,fromHex_toHex]
  simp

theorem lines_renderUsers {l : List ((_ : UserName) × UserEntry)} (h : ∀ u ∈ l, '\n' ∉ u.1.toList) :
    lines (renderUsers l) = l.map userLine := by
  induction l with
  | nil => rfl
  | cons u l ih =>
    have hline : '\n' ∉ userLine u := by
      simp only [userLine,List.mem_append,List.mem_cons,not_or]
      exact ⟨h u (by simp),by decide,fun hc => (toHex_plain hc).2.1 rfl,by decide,
        fun hc => (toHex_plain hc).2.1 rfl⟩
    have hcons : renderUsers (u :: l) = userLine u ++ '\n' :: renderUsers l := by simp [renderUsers]
    rw [hcons, lines_append hline, stripCr_userLine, ih fun v hv => h v (by simp [hv]), List.map_cons]

theorem readUsers_renderUsers {l : List ((_ : UserName) × UserEntry)} (hcolon : ∀ u ∈ l, ':' ∉ u.1.toList)
    (h : ∀ u ∈ l, SurvivesReload u.1) : readUsers (renderUsers l) = Table.ofEntries l := by
  have hparse : (l.map userLine).filterMap parseUserLine = l.map fun u => (u.1,u.2) := by
    rw [List.filterMap_map,← List.filterMap_eq_map]
    apply List.filterMap_congr
    intro u hu
    exact parseUserLine_userLine (hcolon u hu) (h u hu)
  rw [readUsers, lines_renderUsers fun u hu => (h u hu).1, hparse, List.foldl_map]
  rfl

theorem survivesReload_of_parseUserLine {raw : List Char} (hraw : '\n' ∉ raw) {e : UserEntry}
    (h : parseUserLine raw = some (u,e)) : SurvivesReload u := by
  simp only [parseUserLine] at h
  split at h
  · cases h
  · next hline =>
    split at h
    · next name saltHex hashHex hparts =>
      simp only [bind,Option.bind_eq_some_iff,pure,Option.some.injEq,Prod.mk.injEq] at h
      obtain ⟨salt,-,hash,-,rfl,-⟩ := h
      rw [SurvivesReload,String.toList_ofList]
      have hname : ∀ c ∈ name, c ∈ trim raw ∧ c ≠ ':' := mem_of_mem_splitOn (by rw [hparts]; simp)
      constructor
      · intro hmem
        exact hraw (mem_of_mem_trim (hname _ hmem).1)
      · intro c hc
        obtain ⟨rest,rfl⟩ : ∃ rest, name = c :: rest := List.head?_eq_some_iff.mp hc
        have hhead := head_of_splitOn hparts
        obtain ⟨tail,htail⟩ := List.head?_eq_some_iff.mp hhead
        refine ⟨head_trim_not_whitespace htail,?_⟩
        rintro rfl
        exact hline (.inr hhead)
    · cases h

/-- Whatever the file holds, a name read from it survives the next reload. -/
theorem survivesReload_of_mem_readUsers (h : u ∈ readUsers contents) : SurvivesReload u := by
  rcases Table.mem_foldl_insert h with hempty | ⟨e,he⟩
  · exact absurd hempty (AList.notMem_empty u)
  · obtain ⟨raw,hraw,hparse⟩ := List.mem_filterMap.mp he
    exact survivesReload_of_parseUserLine (not_mem_of_mem_lines hraw) hparse

/-- The step of writing the file that fails. A write may fail after some of the bytes. -/
inductive PersistFault where
  | create
  | write (written : ℕ)
  | flush
  | rename
  deriving DecidableEq, Repr

def persist (order : Iteration ((_ : UserName) × UserEntry)) (fault : Option PersistFault) (users : Users)
    (files : StoreFiles) : StoreFiles × Except IoErrorKind Unit :=
  let buf := utf8 (String.ofList (renderUsers (order.order users.entries)))
  match fault with
  | some .create => (files, .error .other)
  | some (.write n) => ({ files with tmp := some (buf.take n) }, .error .other)
  | some .flush | some .rename => ({ files with tmp := some buf }, .error .other)
  | none => (⟨some buf,none⟩, .ok ())

structure StoreChoices where
  salt : Block 16
  order : Iteration ((_ : UserName) × UserEntry)
  fault : Option PersistFault

section
variable (sha256 : Bytes → Block 32) {store : FileUserStore}
def hashPassword (password : String) (salt : Block 16) : Block 32 := sha256 (salt.val ++ utf8 password)
def verify (store : FileUserStore) (username : UserName) (password : String) : Except AuthError Unit :=
  match store.users.lookup username with
  | some entry => if hashPassword sha256 password entry.salt = entry.hash then .ok () else .error .invalidCredentials
  | none => .error .invalidCredentials

/-- `register` for users that `persist` writes down. -/
def registerIn {δ : Type} (persist : Users → δ → δ × Except IoErrorKind Unit) (users : Users) (files : δ)
    (salt : Block 16) (username : UserName) (password : String) : (Users × δ) × Except RegisterError Unit :=
  if username.isEmpty then ((users,files), .error .invalidUsername)
  else if ':' ∈ username.toList then ((users,files), .error .invalidUsername)
  else if password.utf8ByteSize < 6 then ((users,files), .error .weakPassword)
  else if username ∈ users then ((users,files), .error .usernameTaken)
  else
    let users := users.insert username ⟨salt,hashPassword sha256 password salt⟩
    match persist users files with
    | (files, .error _) => ((users.erase username,files), .error .internal)
    | (files, .ok _) => ((users,files), .ok ())
def register (store : FileUserStore) (choices : StoreChoices) (username : UserName) (password : String) :
    FileUserStore × Except RegisterError Unit :=
  (registerIn sha256 (persist choices.order choices.fault) store.users store.files choices.salt username password).map
    (fun s => ⟨s.1,s.2⟩) id

structure RegisterCall where
  username : UserName
  password : String
  choices : StoreChoices
def registerAll (calls : List RegisterCall) (store : FileUserStore) : FileUserStore :=
  calls.foldl (fun store call => (register sha256 store call.choices call.username call.password).1) store
def FileUserStore.empty : FileUserStore := ⟨∅,⟨none,none⟩⟩

/-- What a call of `register` does: it refuses, or fails to write the file and takes the user out again,
or adds the user and replaces the file. -/
theorem register_cases (store : FileUserStore) (choices : StoreChoices) (username : UserName) (password : String) :
    (∃ e, register sha256 store choices username password = (store, .error e)) ∨
    (choices.fault ≠ none ∧ ∃ files, register sha256 store choices username password =
        (⟨store.users,files⟩, .error .internal) ∧ files.file = store.files.file) ∨
    (choices.fault = none ∧ username.toList ≠ [] ∧ ':' ∉ username.toList ∧ username ∉ store.users ∧
      ∃ users, users = store.users.insert username ⟨choices.salt,hashPassword sha256 password choices.salt⟩ ∧
        register sha256 store choices username password =
          (⟨users,some (utf8 (String.ofList (renderUsers (choices.order.order users.entries)))),none⟩, .ok ())) := by
  unfold register registerIn
  split
  · exact .inl ⟨_,rfl⟩
  · next hempty =>
    split
    · exact .inl ⟨_,rfl⟩
    · next hcolon =>
      split
      · exact .inl ⟨_,rfl⟩
      · split
        · exact .inl ⟨_,rfl⟩
        · next hfresh =>
          refine .inr ?_
          cases hfault : choices.fault with
          | none =>
            refine .inr ⟨rfl,?_,hcolon,hfresh,_,rfl,rfl⟩
            simpa [String.isEmpty_iff] using hempty
          | some fault =>
            have herase := Table.erase_insert hfresh ⟨choices.salt,hashPassword sha256 password choices.salt⟩
            refine .inl ⟨by simp,?_⟩
            cases fault <;> exact ⟨_,congrArg (fun users => (FileUserStore.mk users _,_)) herase,rfl⟩

structure FileUserStore.Saved (store : FileUserStore) : Prop where
  file : store.users = ∅ ∧ store.files.file = none ∨ ∃ l, l.Perm store.users.entries ∧
    store.files.file = some (utf8 (String.ofList (renderUsers l)))
  names : ∀ u ∈ store.users, ':' ∉ u.toList
  owned : ∀ u e, store.users.lookup u = some e → ∃ password, e.hash = hashPassword sha256 password e.salt

theorem register_saved (h : store.Saved sha256) {choices : StoreChoices}
    (hfault : choices.fault = none) (username : UserName) (password : String) :
    (register sha256 store choices username password).1.Saved sha256 := by
  rcases register_cases sha256 store choices username password with
    ⟨e,hrun⟩ | ⟨hne,-⟩ | ⟨-,-,hcolon,-,users,rfl,hrun⟩
  · rw [hrun]
    exact h
  · exact absurd hfault hne
  · rw [hrun]
    constructor
    · exact .inr ⟨_,choices.order.perm _,rfl⟩
    · intro u hu
      rcases (AList.mem_insert _).mp hu with rfl | hu
      · exact hcolon
      · exact h.names u hu
    · intro u e he
      by_cases hu : u = username
      · subst hu
        obtain rfl : _ = e := Option.some.inj ((AList.lookup_insert store.users).symm.trans he)
        exact ⟨password,rfl⟩
      · exact h.owned u e ((AList.lookup_insert_ne hu).symm.trans he)

theorem registerAll_saved (h : store.Saved sha256) {calls : List RegisterCall}
    (hfault : ∀ call ∈ calls, call.choices.fault = none) : (registerAll sha256 calls store).Saved sha256 := by
  induction calls generalizing store with
  | nil => exact h
  | cons call calls ih =>
    exact ih (register_saved sha256 h (hfault call (by simp)) _ _) fun c hc => hfault c (by simp [hc])
theorem verify_eq_ok {username : UserName} {password : String} : verify sha256 store username password = .ok () ↔
      ∃ e, store.users.lookup username = some e ∧ hashPassword sha256 password e.salt = e.hash := by
  unfold verify
  cases store.users.lookup username <;> simp

/-- Reopening a saved store gives the same accounts exactly if every name in it survives. -/
theorem FileUserStore.Saved.reopen (h : store.Saved sha256) : ∃ reopened, openStore store.files = .ok reopened ∧
      ((∀ username password, verify sha256 reopened username password = .ok () ↔
          verify sha256 store username password = .ok ()) ↔ ∀ u ∈ store.users, SurvivesReload u) := by
  rcases h.file with ⟨hempty,hfile⟩ | ⟨l,hl,hfile⟩
  · refine ⟨⟨∅,store.files⟩,by rw [openStore,hfile],iff_of_true ?_ ?_⟩
    · intro username password
      simp [verify_eq_ok,hempty]
    · intro u hu
      rw [hempty] at hu
      exact absurd hu (AList.notMem_empty u)
  · have hopen := openStore_text hfile
    have hmem : ∀ u ∈ l, u.1 ∈ store.users := by
      intro u hu
      exact List.mem_keys_of_mem (hl.mem_iff.mp hu)
    refine ⟨_,hopen,?_⟩
    constructor
    · intro hsame u hu
      obtain ⟨e,he⟩ := Table.mem_iff.mp hu
      obtain ⟨password,hhash⟩ := h.owned u e he
      have hverify : verify sha256 store u password = .ok () := (verify_eq_ok sha256).mpr ⟨e,he,hhash.symm⟩
      obtain ⟨e',he',-⟩ := (verify_eq_ok sha256).mp ((hsame u password).mpr hverify)
      exact survivesReload_of_mem_readUsers (Table.mem_iff.mpr ⟨_,he'⟩)
    · intro hnames username password
      have hread := readUsers_renderUsers (fun u hu => h.names u.1 (hmem u hu)) fun u hu => hnames u.1 (hmem u hu)
      have hlookup : (readUsers (renderUsers l)).lookup username = store.users.lookup username := by
        rw [hread,Table.lookup_ofEntries hl]
      simp only [verify_eq_ok,hlookup]

/-- For every sequence of registrations on a fresh store whose writes succeed, the store can be reopened,
and it then accepts the same names and passwords if and only if every name in it survives. -/
theorem reopened_store_accepts_same_iff (calls : List RegisterCall)
    (hfault : ∀ call ∈ calls, call.choices.fault = none) :
    ∃ reopened, openStore (registerAll sha256 calls .empty).files = .ok reopened ∧
      ((∀ username password, verify sha256 reopened username password = .ok () ↔
          verify sha256 (registerAll sha256 calls .empty) username password = .ok ()) ↔
        ∀ u ∈ (registerAll sha256 calls .empty).users, SurvivesReload u) := by
  have hempty : FileUserStore.empty.Saved sha256 := ⟨.inl ⟨rfl,rfl⟩,by simp [FileUserStore.empty],by simp [FileUserStore.empty]⟩
  exact (registerAll_saved sha256 hempty hfault).reopen

end
def firstBytes (b : Bytes) : Block 32 := ⟨(b ++ .replicate 32 0).take 32,by simp⟩

theorem reopened_store_accepts_two_users :
    let store := registerAll firstBytes
      [⟨"ada","lovelace",⟨⟨.replicate 16 1,rfl⟩,⟨id,fun _ => .rfl⟩,none⟩⟩,
        ⟨"bob","password",⟨⟨.replicate 16 2,rfl⟩,⟨List.reverse,List.reverse_perm⟩,none⟩⟩] .empty
    ∃ reopened, openStore store.files = .ok reopened ∧
      ∀ username password, verify firstBytes reopened username password = .ok () ↔
        verify firstBytes store username password = .ok () := by
  intro store
  have hkeys : store.users.keys = ["bob","ada"] := by decide +kernel
  obtain ⟨reopened,hopen,hsame⟩ := reopened_store_accepts_same_iff firstBytes
    [⟨"ada","lovelace",⟨⟨.replicate 16 1,rfl⟩,⟨id,fun _ => .rfl⟩,none⟩⟩,
      ⟨"bob","password",⟨⟨.replicate 16 2,rfl⟩,⟨List.reverse,List.reverse_perm⟩,none⟩⟩] (by simp)
  refine ⟨reopened,hopen,hsame.mpr ?_⟩
  intro u hu
  have hmem : u ∈ ["bob","ada"] := hkeys ▸ hu
  rw [List.mem_cons, List.mem_singleton] at hmem
  rcases hmem with rfl | rfl <;> decide +kernel

/-- Someone registers bob's name with a blank in front. After a restart the blank is gone and the second
line has replaced bob's: bob's password is refused and the other one opens the account. -/
theorem blank_takes_over_account :
    let store := registerAll firstBytes
      [⟨"bob","secret1",⟨⟨.replicate 16 1,rfl⟩,⟨id,fun _ => .rfl⟩,none⟩⟩,
        ⟨" bob","attack1",⟨⟨.replicate 16 2,rfl⟩,⟨List.reverse,List.reverse_perm⟩,none⟩⟩] .empty
    (verify firstBytes store "bob" "secret1").isOk = true ∧ (verify firstBytes store "bob" "attack1").isOk = false ∧
      ((openStore store.files).toOption.map fun reopened =>
        ((verify firstBytes reopened "bob" "secret1").isOk,(verify firstBytes reopened "bob" "attack1").isOk)) =
        some (false,true) := by
  let store := registerAll firstBytes
    [⟨"bob","secret1",⟨⟨.replicate 16 1,rfl⟩,⟨id,fun _ => .rfl⟩,none⟩⟩,
      ⟨" bob","attack1",⟨⟨.replicate 16 2,rfl⟩,⟨List.reverse,List.reverse_perm⟩,none⟩⟩] .empty
  -- the text of the file is known, so that its bytes need not be decoded again
  have hfile : store.files.file = some (utf8 (String.ofList (renderUsers store.users.entries.reverse))) := rfl
  have hopen : openStore store.files = .ok ⟨readUsers (renderUsers store.users.entries.reverse),store.files⟩ :=
    openStore_text hfile
  refine ⟨by decide +kernel,by decide +kernel,?_⟩
  refine (congrArg (fun r : Except IoErrorKind FileUserStore => r.toOption.map _) hopen).trans ?_
  decide +kernel
end RustyRtc.Signaling
