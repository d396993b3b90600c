import RustyRtc.App.Isolation
import RustyRtc.Connection.Refusal

/-! # Answers nobody asked for

`app/rtc_app.rs`: the client does not compare an answer with the call it is making. The sender becomes the peer, and
the next frame hands the text to the connection manager, which takes it for an offer or an answer by its own state.
A second answer is an offer to it.
-/
namespace RustyRtc.App
open Connection Signaling Ice

namespace RtcApp
variable {sdp : Bytes}
def Asked (app : RtcApp) (txnId : TxnId) (user : UserName) : Prop := app.callFlow = .dialing user txnId

/-- The flow of the call, the peer's description, the signaling state and the ICE role. -/
def negotiation (app : RtcApp) : CallFlow × Option Sdp × SignalingState × IceRole := (app.callFlow,app.engine.cm.stance)

variable (v6 : Ipv6Text)
def heard (env env' : Environment) (app : RtcApp) (msg : SignalingMsg) : RtcApp :=
  (app.handleSignalingServerMsg v6 env msg).1.takePending v6 env'

def plainAnswer (user : UserName) : SignalingMsg :=
  .answer 1 user "alice" (utf8 (String.ofList (ConnectionManager.describing "")))
def answered : RtcApp := heard noIpv6 quiet quiet dialing (plainAnswer "bob")

end RtcApp
end RustyRtc.App
