import RustyRtc.Foundation.Table
import RustyRtc.Signaling.Protocol

/-! # Presence

`signaling/presence.rs`: which client is logged in as which user. The two maps are updated one
at a time and nothing in the type says that they agree.
-/
namespace RustyRtc.Signaling
structure Presence where
  userToClient : Table UserName ClientId
  clientToUser : Table ClientId UserName
  busyUsers : TableSet UserName

namespace Presence
def new : Presence := ⟨∅,∅,∅⟩

/-- The second component is the client on which the user was logged in before. -/
def login (p : Presence) (clientId : ClientId) (username : UserName) : Presence × Option ClientId :=
  ({ p with
      userToClient := p.userToClient.insert username clientId
      clientToUser := p.clientToUser.insert clientId username },
    p.userToClient.lookup username)
def logout (p : Presence) (clientId : ClientId) : Presence × Option UserName :=
  match p.clientToUser.lookup clientId with
  | some username =>
    (⟨p.userToClient.erase username,p.clientToUser.erase clientId,p.busyUsers.erase username⟩,some username)
  | none => (p,none)

def clientIdFor (p : Presence) (username : UserName) : Option ClientId := p.userToClient.lookup username
def usernameFor (p : Presence) (client : ClientId) : Option UserName := p.clientToUser.lookup client
def onlineUsernames (p : Presence) (users : Iteration UserName) : List UserName := users.order p.userToClient.keys
def allClientIds (p : Presence) (clients : Iteration ClientId) : List ClientId :=
  clients.order p.clientToUser.keys
def setBusy (p : Presence) (username : UserName) (busy : Bool) : Presence :=
  if busy then { p with busyUsers := p.busyUsers.insert username () }
  else { p with busyUsers := p.busyUsers.erase username }
def isBusy (p : Presence) (username : UserName) : Bool := decide (username ∈ p.busyUsers)

section
variable (p : Presence) (client : ClientId) (username : UserName) (c : ClientId)

@[simp] theorem clientIdFor_setBusy (u : UserName) (busy : Bool) :
    (p.setBusy u busy).clientIdFor username = p.clientIdFor username := by
  cases busy <;> rfl
@[simp] theorem usernameFor_setBusy (u : UserName) (busy : Bool) :
    (p.setBusy u busy).usernameFor client = p.usernameFor client := by
  cases busy <;> rfl

theorem clientIdFor_login (u : UserName) :
    (p.login c u).1.clientIdFor username = if username = u then some c else p.clientIdFor username := by
  refine Option.ext fun _ => Table.lookup_insert_eq_some.trans ?_
  split <;> simp [*,clientIdFor]

theorem usernameFor_login (u : UserName) :
    (p.login c u).1.usernameFor client = if client = c then some u else p.usernameFor client := by
  refine Option.ext fun _ => Table.lookup_insert_eq_some.trans ?_
  split <;> simp [*,usernameFor]

theorem logout_snd : (p.logout client).2 = p.usernameFor client := by
  unfold logout usernameFor
  cases p.clientToUser.lookup client <;> rfl

theorem usernameFor_logout :
    (p.logout c).1.usernameFor client = if client = c then none else p.usernameFor client := by
  unfold logout usernameFor
  by_cases h : client = c
  · subst h
    cases hc : p.clientToUser.lookup client with
    | none => simpa using hc
    | some u => simp
  · cases hc : p.clientToUser.lookup c with
    | none => simp [h]
    | some u => simp [h,AList.lookup_erase_ne h]

theorem clientIdFor_logout : (p.logout c).1.clientIdFor username =
    if p.usernameFor c = some username then none else p.clientIdFor username := by
  unfold logout clientIdFor usernameFor
  cases hc : p.clientToUser.lookup c with
  | none => simp
  | some u =>
    simp only [Option.some.injEq]
    split
    · next h =>
      subst h
      exact AList.lookup_erase _ _
    · next h => exact AList.lookup_erase_ne fun h' => h h'.symm
end

theorem keys_logout (p : Presence) {client : ClientId} {u : UserName} (h : p.usernameFor client = some u) :
    (p.logout client).1.userToClient.keys = p.userToClient.keys.erase u := by
  unfold logout
  rw [show p.clientToUser.lookup client = some u from h]
  exact AList.keys_erase u p.userToClient

theorem mem_userToClient_of_logout {p : Presence} {client : ClientId} {u : UserName}
    (h : u ∈ (p.logout client).1.userToClient) : u ∈ p.userToClient := by
  unfold logout at h
  split at h
  · exact ((AList.mem_erase).mp h).2
  · exact h
end Presence
end RustyRtc.Signaling
