import QvPlugin.Lib.Family
import QvPlugin.Socksify.HttpRequest
import QvPlugin.Socksify.SocketStream
import QvPlugin.Utils.QJsonIO

/-!
`HttpProxy`: the clients, the upstream sockets that each client owns, and the slots. A step is one
event of one socket, so every order in which Qt can deliver the events is a run. Upstream sockets
are numbered in the order of their creation, and a deleted one keeps its number.
-/

set_option autoImplicit false
set_option relaxedAutoImplicit false

namespace QvPlugin.Socksify

open Lib Qt Utils

/-- `QNetworkProxy(QNetworkProxy::Socks5Proxy, hostName, port)`. -/
structure QNetworkProxy where
  hostName : QString
  port : UInt16
  deriving DecidableEq

/-- A slot connected to the `readyRead` of a client; a stream is named by its other socket. -/
inductive ReadSlot where
  | onSocketReadyRead
  | stream (proxySocket : ℕ)
  deriving DecidableEq

/-- An upstream socket. `https` tells `onProxySocketConnectedHttps` from the two slots of a plain
one. -/
structure ProxySocket where
  socket : QAbstractSocket
  objectName : QString := ""
  reqData : QByteArray := []
  https : Bool
  host : QString
  port : UInt16
  proxy : QNetworkProxy
  deleted : Bool := false
  deriving DecidableEq

structure Client where
  socket : QAbstractSocket
  readyRead : List ReadSlot
  children : List ProxySocket
  deriving DecidableEq

/-- `host + ':' + QString::number(port)`. -/
def key (host : QString) (port : UInt16) : QString := host ++ ":" ++ number port.toNat

def httpsHeader : QByteArray := toUtf8 "HTTP/1.0 200 Connection established\r\n\r\n"

namespace ProxySocket

def write (p : ProxySocket) (data : QByteArray) : ProxySocket :=
  { p with socket := p.socket.write data }

def readAll (p : ProxySocket) : ProxySocket := { p with socket := p.socket.readAll }

def setState (p : ProxySocket) (state : SocketState) : ProxySocket :=
  { p with socket := { p.socket with state } }

/-- A socket for a request to `host`, which keeps `reqData` until it is connected. -/
def plain (upstreamProxy : QNetworkProxy) (host : QString) (port : UInt16) (reqData : QByteArray) :
    ProxySocket where
  socket := { state := .connecting }
  objectName := key host port
  reqData := reqData
  https := false
  host := host
  port := port
  proxy := upstreamProxy

/-- A socket for a CONNECT, without a name. -/
def tunnel (upstreamProxy : QNetworkProxy) (host : QString) (port : UInt16) : ProxySocket where
  socket := { state := .connecting }
  https := true
  host := host
  port := port
  proxy := upstreamProxy

end ProxySocket

/-- What happens to an upstream socket; no slot is connected to its `errorOccurred`. -/
inductive ProxySocketEvent where
  | connected
  | errorOccurred
  | receive (data : QByteArray)
  | readyRead
  | disconnected
  | deferredDelete
  deriving DecidableEq

def ProxySocket.Can (p : ProxySocket) : ProxySocketEvent → Prop
  | .connected => p.socket.state = .connecting
  | .errorOccurred => True
  | .receive _ => p.socket.state = .connected
  | .readyRead => p.socket.state = .connected
  | .disconnected => p.socket.state = .connected
  | .deferredDelete => p.socket.deleteLater = true

instance (p : ProxySocket) : (e : ProxySocketEvent) → Decidable (p.Can e)
  | .connected => inferInstanceAs (Decidable (p.socket.state = _))
  | .errorOccurred => inferInstanceAs (Decidable True)
  | .receive _ => inferInstanceAs (Decidable (p.socket.state = _))
  | .readyRead => inferInstanceAs (Decidable (p.socket.state = _))
  | .disconnected => inferInstanceAs (Decidable (p.socket.state = _))
  | .deferredDelete => inferInstanceAs (Decidable (p.socket.deleteLater = _))

inductive ClientEvent where
  | receive (data : QByteArray)
  | readyRead
  | errorOccurred
  | disconnected
  | proxySocket (k : ℕ) (e : ProxySocketEvent)
  deriving DecidableEq

namespace Client

/-- `incomingConnection`, for a descriptor that the socket accepts or refuses. -/
def incoming (accepted : Bool) : Client where
  socket := { state := if accepted then .connected else .unconnected }
  readyRead := [.onSocketReadyRead]
  children := []

/-- `findChild`: the first live child of that name. -/
def findChild (c : Client) (name : QString) : Option ℕ :=
  c.children.findIdx? fun p => !p.deleted && p.objectName = name

def modifyChild (c : Client) (k : ℕ) (f : ProxySocket → ProxySocket) : Client :=
  { c with children := c.children.modify k f }

def connectToHost (c : Client) (p : ProxySocket) : Client :=
  { c with children := c.children ++ [p] }

def onSocketReadyRead (t : QtText) (upstreamProxy : QNetworkProxy) (c : Client) : Client :=
  let reqData := c.socket.incoming
  let c := { c with socket := c.socket.readAll }
  match request t reqData with
  | .invalid => { c with socket := c.socket.disconnectFromHost }
  | .plain host port reqData =>
      match c.findChild (key host port) with
      | some k => c.modifyChild k (·.write reqData)
      | none => c.connectToHost (.plain upstreamProxy host port reqData)
  | .connect host port => c.connectToHost (.tunnel upstreamProxy host port)

def onProxySocketConnected (c : Client) (k : ℕ) : Client :=
  c.modifyChild k fun p => p.write p.reqData

def onProxySocketConnectedHttps (c : Client) (k : ℕ) : Client :=
  { c with
    readyRead := c.readyRead.filter (· ≠ .onSocketReadyRead) ++ [.stream k]
    socket := c.socket.write httpsHeader }

def onProxySocketReadyRead (c : Client) (k : ℕ) (p : ProxySocket) : Client :=
  { c with socket := c.socket.write p.socket.incoming }.modifyChild k (·.readAll)

def streamed (c : Client) (k : ℕ) (slot : SocketStream → SocketStream) : Client :=
  match c.children[k]? with
  | some p =>
      let s := slot ⟨c.socket, p.socket⟩
      { c with socket := s.m_as }.modifyChild k fun p => { p with socket := s.m_bs }
  | none => c

def callSlot (t : QtText) (upstreamProxy : QNetworkProxy) (c : Client) : ReadSlot → Client
  | .onSocketReadyRead => c.onSocketReadyRead t upstreamProxy
  | .stream k => c.streamed k .onSocketAReadyRead

def Can (c : Client) : ClientEvent → Prop
  | .receive _ => c.socket.state = .connected
  | .readyRead => c.socket.state = .connected
  | .errorOccurred => True
  | .disconnected => c.socket.state = .connected ∨ c.socket.state = .closing
  | .proxySocket _ _ => True

instance (c : Client) : (e : ClientEvent) → Decidable (c.Can e)
  | .receive _ => inferInstanceAs (Decidable (c.socket.state = _))
  | .readyRead => inferInstanceAs (Decidable (c.socket.state = _))
  | .errorOccurred => inferInstanceAs (Decidable True)
  | .disconnected => inferInstanceAs (Decidable (c.socket.state = _ ∨ c.socket.state = _))
  | .proxySocket _ _ => inferInstanceAs (Decidable True)

def proxySocketEvent (c : Client) (k : ℕ) (p : ProxySocket) : ProxySocketEvent → Client
  | .connected =>
      let c := c.modifyChild k (·.setState .connected)
      if p.https then c.onProxySocketConnectedHttps k else c.onProxySocketConnected k
  | .errorOccurred =>
      -- an attempt to connect that fails ends without `disconnected`
      if p.socket.state = .connecting then c.modifyChild k (·.setState .unconnected) else c
  | .receive data => c.modifyChild k fun p => { p with socket := p.socket.receive data }
  | .readyRead =>
      if p.https then
        if ReadSlot.stream k ∈ c.readyRead then c.streamed k .onSocketBReadyRead else c
      else c.onProxySocketReadyRead k p
  | .disconnected => c.modifyChild k fun p => { p with socket := p.socket.disconnected }
  | .deferredDelete =>
      -- the stream's `deleteLater` came with the socket's, and goes with it
      { c with readyRead := c.readyRead.filter (· ≠ ReadSlot.stream k) }.modifyChild k
        fun p => { p with deleted := true }

def event (t : QtText) (c : Client) : QNetworkProxy × ClientEvent → Option Client
  | (_, .receive data) => some { c with socket := c.socket.receive data }
  | (upstreamProxy, .readyRead) => some (c.readyRead.foldl (callSlot t upstreamProxy) c)
  | (_, .errorOccurred) => some { c with socket := { c.socket with deleteLater := true } }
  | (_, .disconnected) => some { c with socket := c.socket.disconnected }
  | (_, .proxySocket k e) =>
      (c.children[k]?).bind fun p =>
        if p.deleted = false ∧ p.Can e then some (c.proxySocketEvent k p e) else none

/-- One event, if Qt can deliver it. -/
def step (t : QtText) (c : Client) (a : QNetworkProxy × ClientEvent) : Option Client :=
  if c.Can a.2 then c.event t a else none

end Client

/-- `QHostAddress`, as far as `httpListen` looks at it. -/
inductive QHostAddress where
  | anyIPv4
  | anyIPv6
  | address (text : QString)
  deriving DecidableEq

def QHostAddress.toString : QHostAddress → QString
  | .anyIPv4 => "0.0.0.0"
  | .anyIPv6 => "::"
  | .address text => text

structure Listen where
  http_addr : QHostAddress
  socks_port : UInt16
  deriving DecidableEq

/-- What `httpListen` sets `upstreamProxy` to, before it knows whether it can listen. -/
def httpListen (_upstreamProxy : QNetworkProxy) (l : Listen) : QNetworkProxy :=
  let isAny := l.http_addr = .anyIPv4 ∨ l.http_addr = .anyIPv6
  { hostName := if isAny then "127.0.0.1" else l.http_addr.toString, port := l.socks_port }

inductive ConnectionEvent where
  | incomingConnection (accepted : Bool)
  | client (e : ClientEvent)
  | deferredDelete
  deriving DecidableEq

/-- One event of a connection: there may be no object for it. The object owns its upstream sockets,
and they go with it. -/
def connectionStep (t : QtText) : Option Client → QNetworkProxy × ConnectionEvent →
    Option (Option Client)
  | none, (_, .incomingConnection accepted) =>
      some (some (.incoming accepted))
  | some c, (upstreamProxy, .client e) => (c.step t (upstreamProxy, e)).map some
  | some c, (_, .deferredDelete) => if c.socket.deleteLater then some none else none
  | _, _ => none

/-- The proxy: `upstreamProxy` and the objects. -/
abbrev HttpProxy (ι : Type) := Family ι QNetworkProxy (Option Client)

abbrev HttpProxyEvent (ι : Type) := FamilyAction ι Listen ConnectionEvent

def HttpProxy.step {ι : Type} [DecidableEq ι] (t : QtText) :
    HttpProxy ι → HttpProxyEvent ι → Option (HttpProxy ι) :=
  Family.step httpListen (connectionStep t)

end QvPlugin.Socksify
