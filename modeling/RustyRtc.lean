import RustyRtc.Srtp.Join
import RustyRtc.Srtp.Footprint
import RustyRtc.Media.Loss
import RustyRtc.Media.Transmission
import RustyRtc.Media.Fragments
import RustyRtc.Core.Agreement
import RustyRtc.Core.CloseEvents
import RustyRtc.Core.StrayFin
import RustyRtc.Core.HalfOpen
import RustyRtc.Signaling.Transport
import RustyRtc.Signaling.StoreOnDisk
import RustyRtc.Signaling.PeerLists
import RustyRtc.Signaling.ServerLoop
import RustyRtc.Signaling.FrameLimit
import RustyRtc.Rtcp.Limits
import RustyRtc.Ice.Stun
import RustyRtc.Connection.IceSockets
import RustyRtc.Srtp.Rejection
import RustyRtc.Sdp.UnknownLines
import RustyRtc.Sctp.Timeouts
import RustyRtc.Sctp.Transport
import RustyRtc.Files.Integrity
import RustyRtc.Files.Directions
import RustyRtc.Connection.Trickle
import RustyRtc.App.Answers
import RustyRtc.Media.AudioPlayback
import RustyRtc.Signaling.Capacity
import RustyRtc.Signaling.Notices
import RustyRtc.Signaling.CallStatus
import RustyRtc.Rtp.GapSkipping
import RustyRtc.Rtp.Statistics
import RustyRtc.Rtcp.Decoding
import RustyRtc.Media.H264Decoder
import RustyRtc.Srtp.PayloadRegion
import RustyRtc.Connection.Securing
