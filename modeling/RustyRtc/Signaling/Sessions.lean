import RustyRtc.Foundation.Table
import RustyRtc.Signaling.Protocol

/-! # Sessions

`signaling/sessions.rs`: sessions by id, and their ids by code.
-/
namespace RustyRtc.Signaling
structure Session where
  sessionId : SessionId
  sessionCode : SessionCode
  capacity : UInt8
  members : TableSet ClientId
def Session.joinedBy (session : Session) (clientId : ClientId) : Session :=
  { session with members := session.members.insert clientId () }

inductive JoinError where
  | notFound
  | full
  deriving DecidableEq, Repr
structure Sessions where
  bySessId : Table SessionId Session
  bySessCode : Table SessionCode SessionId

namespace Sessions
variable {s s' : Sessions} {code : SessionCode} {clientId : ClientId}
def new : Sessions := ⟨∅,∅⟩
def insert (s : Sessions) (session : Session) : Sessions where
  bySessCode := s.bySessCode.insert session.sessionCode session.sessionId
  bySessId := s.bySessId.insert session.sessionId session
def get (s : Sessions) (sessionId : SessionId) : Option Session := s.bySessId.lookup sessionId

/-- No result stands for the panic on a code whose session does not exist. -/
def joinByCode (s : Sessions) (sessionCode : SessionCode) (clientId : ClientId) :
    Option (Sessions × Except JoinError SessionId) :=
  match s.bySessCode.lookup sessionCode with
  | none => some (s, .error .notFound)
  | some sessionId =>
    match s.bySessId.lookup sessionId with
    | none => none
    | some session =>
      if session.members.keys.length ≥ session.capacity.toNat then some (s, .error .full)
      else
        let session := { session with members := session.members.insert clientId () }
        some ({ s with bySessId := s.bySessId.insert sessionId session }, .ok sessionId)

theorem joinByCode_error {e : JoinError} (h : s.joinByCode code clientId = some (s', .error e)) : s' = s := by
  unfold joinByCode at h
  split at h
  · cases h
    rfl
  · split at h
    · cases h
    · split at h
      · cases h
        rfl
      · cases h

theorem joinByCode_ok {sessionId : SessionId} (h : s.joinByCode code clientId = some (s', .ok sessionId)) :
    s.bySessCode.lookup code = some sessionId ∧ ∃ session, s.bySessId.lookup sessionId = some session ∧
      session.members.keys.length < session.capacity.toNat ∧
      s' = { s with bySessId := s.bySessId.insert sessionId (session.joinedBy clientId) } := by
  unfold joinByCode at h
  split at h
  · cases h
  · next id hid =>
    split at h
    · cases h
    · next session hsession =>
      split at h
      · cases h
      · next hroom =>
        obtain ⟨rfl,hok⟩ := Prod.mk.inj (Option.some.inj h)
        cases hok
        exact ⟨hid,session,hsession,Nat.lt_of_not_le hroom,rfl⟩

/-- The order in which a call meets the sessions, and the members of each. -/
structure Orders where
  sessions : Iteration ((_ : SessionId) × Session)
  members : Iteration ClientId

def leave (orders : Orders) (clientId : ClientId) (s : Sessions) (sessId : SessionId) :
    Sessions × List (SessionId × List ClientId) :=
  match s.bySessId.lookup sessId with
  | none => (s,[])
  | some sess =>
    let sess := { sess with members := sess.members.erase clientId }
    ({ s with bySessId := s.bySessId.insert sessId sess },[(sessId,orders.members.order sess.members.keys)])

def sessionsOf (orders : Orders) (clientId : ClientId) (s : Sessions) : List SessionId :=
  (orders.sessions.order s.bySessId.entries).filterMap fun e =>
    if clientId ∈ e.2.members then some e.1 else none
def removeEmpty (s : Sessions) : Sessions :=
  let bySessId := Table.retain (fun _ sess => !sess.members.keys.isEmpty) s.bySessId
  ⟨bySessId,Table.retain (fun _ sessId => decide (sessId ∈ bySessId)) s.bySessCode⟩

def leaveAll (orders : Orders) (s : Sessions) (clientId : ClientId) :
    Sessions × List (SessionId × List ClientId) :=
  let (s,result) := (sessionsOf orders clientId s).foldl
    (fun (acc : Sessions × List (SessionId × List ClientId)) sessId =>
      let (s,left) := leave orders clientId acc.1 sessId
      (s,acc.2 ++ left)) (s,[])
  (removeEmpty s,result)

def containsCode (s : Sessions) (code : SessionCode) : Bool := decide (code ∈ s.bySessCode)
end Sessions
end RustyRtc.Signaling
