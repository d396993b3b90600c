import RustyRtc.Signaling.Protocol

/-! # Authentication backends

`signaling/auth`: what the server asks of a store of accounts. `β` is the state of the store and
`ρ` what a registration gets from its surroundings, such as random bytes.
-/
namespace RustyRtc.Signaling
inductive AuthError where
  | invalidCredentials
  | internal
  deriving DecidableEq, Repr

inductive RegisterError where
  | usernameTaken
  | invalidUsername
  | weakPassword
  | internal
  | unsupported
  deriving DecidableEq, Repr

structure AuthBackend (β ρ : Type) where
  verify : β → UserName → String → Except AuthError Unit
  register : β → ρ → UserName → String → β × Except RegisterError Unit
def allowAll : AuthBackend Unit Unit where
  verify _ _ _ := .ok ()
  register _ _ _ _ := ((), .ok ())
end RustyRtc.Signaling
