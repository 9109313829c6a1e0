import TcpProxy.Lib.Fields
import TcpProxy.Model.CommandLine

/-!
# The address of the message broker (`address.h`, `login.h`)

The client library's `Address`, made from the text of `-r`, and the two texts it can be written
as: `operator std::string` and `operator<<`.
-/

namespace TcpProxy

namespace AMQP

/-- `Login`. -/
@[ext]
structure Login where
  user : List Char
  password : List Char
  deriving DecidableEq

/-- `Login::Login`. -/
def Login.new : Login := ⟨"guest".toList, "guest".toList⟩

/-- `Login::operator bool`. -/
def Login.isSet (login : Login) : Bool := !login.user.isEmpty || !login.password.isEmpty

/-- `Address`. -/
@[ext]
structure Address where
  secure : Bool
  login : Login
  hostname : List Char
  port : UInt16
  vhost : List Char
  deriving DecidableEq

def defaultport (secure : Bool) : UInt16 := if secure then 5671 else 5672

/-- `memchr`: the place of the first `c`. -/
def memchr (c : Char) (cs : List Char) : Option Nat := cs.idxOf? c

/-- The protocol at the start of the text, and what follows it. -/
def protocol (data : List Char) : Option (Bool × List Char) :=
  if "amqps://".toList.isPrefixOf data then some (true, data.drop 8)
  else if "amqp://".toList.isPrefixOf data then some (false, data.drop 7)
  else none

/-- The login in front of the `@`. -/
def login (data : List Char) : Login :=
  match memchr ':' data with
  | some colon => ⟨data.take colon, data.drop (colon + 1)⟩
  | none => ⟨data, []⟩

/-- What follows the login. -/
def location (secure : Bool) (login : Login) (data : List Char) : Address :=
  let slash := memchr '/' data
  let vhost :=
    match slash with
    | some slash => if 1 < data.length - slash then data.drop (slash + 1) else ['/']
    | none => ['/']
  let host := (slash.map data.take).getD data
  -- a colon behind the slash is part of the vhost
  match (memchr ':' data).filter fun colon => slash.all (colon < ·) with
  | some colon =>
    let port := Config.atoi (host.drop (colon + 1))
    ⟨secure, login, data.take colon, .ofBitVec (BitVec.ofInt 16 port), vhost⟩
  | none => ⟨secure, login, host, defaultport secure, vhost⟩

/-- `Address::Address` on a text, `none` where it throws. -/
def Address.ofText (data : List Char) : Option Address :=
  (protocol data).map fun (secure, data) =>
    match memchr '@' data with
    | some sign => location secure (AMQP.login (data.take sign)) (data.drop (sign + 1))
    | none => location secure .new data

/-- The port, unless it goes without saying. -/
def portText (default port : UInt16) : List Char :=
  if port = default then [] else ':' :: IStream.decimal port.toNat

def protocolText (secure : Bool) : List Char :=
  if secure then "amqps://".toList else "amqp://".toList

def vhostText (vhost : List Char) : List Char := if vhost = ['/'] then [] else vhost

/-- `Login`'s `operator<<`. -/
def Login.text (login : Login) : List Char := login.user ++ ':' :: login.password

/-- `Address::operator std::string`. -/
def Address.toText (a : Address) : List Char :=
  protocolText a.secure ++ (a.login.text ++ '@' :: (a.hostname ++
    (portText 5672 a.port ++ '/' :: vhostText a.vhost)))

/-- `Address`'s `operator<<`. -/
def Address.streamed (a : Address) : List Char :=
  protocolText a.secure ++ ((if a.login.isSet then a.login.text ++ ['@'] else []) ++ (a.hostname ++
    (portText (defaultport a.secure) a.port ++ '/' :: vhostText a.vhost)))

end AMQP

end TcpProxy
