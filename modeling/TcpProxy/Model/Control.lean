import TcpProxy.Lib.Jsoncpp
import TcpProxy.Model.Manager

/-!
# Control messages (`jsonparser.cpp`, `controller.cpp`, `controlchannel.cpp`)

A message body from the queue is parsed into a `ControlMessage`, which the `Controller` carries
out. The acknowledgement of the delivery is in `Model/Process.lean`.
-/

namespace TcpProxy

/-- The values of `ControlMessage::type`, an `int`. -/
inductive MessageType
  | CLOSE
  | CLOSE_ALL
  | other (type : Int)
  deriving DecidableEq

structure ControlMessage where
  type : MessageType
  id : Int
  deriving DecidableEq

/-- `JsonParser::parse`: what it returns and `*out` after it, or the exception it lets through. -/
def JsonParser.parse (J : Jsoncpp.Impl) (out : ControlMessage) (data : List UInt8) :
    Except Jsoncpp.Exn (Bool × ControlMessage) := do
  match ← J.parseFromStream data with
  | none => .ok (false, out)
  | some root => do
    let client_id ← root.member "client_id"
    if client_id.isEmpty then .ok (false, out)
    else
      let job ← root.member "job"
      if job.isEmpty then .ok (false, out)
      else if !client_id.isConvertibleToInt then .ok (false, out)
      else
        let text ← job.asString J
        if text ≠ "close_sockets" then .ok (false, out)
        else
          let id ← client_id.asInt
          .ok (true, { id := id, type := if 0 ≤ id then .CLOSE else .CLOSE_ALL })

/-- `Controller::onControlMessage`. -/
def Controller.onControlMessage (msg : ControlMessage) (w : World) : Except Fault World :=
  match msg.type with
  | .CLOSE => ProxyManager.dropById msg.id w
  | .CLOSE_ALL => ProxyManager.dropAll w
  | .other _ => .ok w

/-- How a callback of the queue can end the process. -/
inductive Crash
  | uncaught (e : Jsoncpp.Exn)
  | fault (f : Fault)

/-- The `onReceived` callback of `ControlChannel::start` on a message body; `cmsg` is the
uninitialised message it declares. No exception is caught in it. -/
def ControlChannel.onReceived (J : Jsoncpp.Impl) (cmsg : ControlMessage) (body : List UInt8)
    (w : World) : Except Crash World :=
  match JsonParser.parse J cmsg body with
  | .error e => .error (.uncaught e)
  | .ok (false, _) => .ok w
  | .ok (true, cmsg) => (Controller.onControlMessage cmsg w).mapError .fault

end TcpProxy
