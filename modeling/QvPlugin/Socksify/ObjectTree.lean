import QvPlugin.Lib.Forest
import QvPlugin.Socksify.HttpProxy

/-!
The one `HttpProxy` object and the sockets below it, as Qt keeps them: each has an address and a
parent, and a slot has only its `sender()` and what it reaches from there by `parent()` and
`findChild`. A deleted object keeps its place, and its address is not used again.
-/

set_option autoImplicit false
set_option relaxedAutoImplicit false

namespace QvPlugin.Socksify

open Lib Qt

abbrev Pointer := ℕ

/-- A slot connected to a `readyRead`; those of a `SocketStream` name the sockets that it keeps. -/
inductive ReadyReadSlot where
  | onSocketReadyRead
  | onProxySocketReadyRead
  | onSocketAReadyRead (m_as m_bs : Pointer)
  | onSocketBReadyRead (m_as m_bs : Pointer)
  deriving DecidableEq

inductive ConnectedSlot where
  | onProxySocketConnected
  | onProxySocketConnectedHttps
  deriving DecidableEq

/-- A socket with its connections. `errorOccurred` counts how often `onSocketError` is connected. -/
structure QTcpSocket where
  socket : QAbstractSocket
  objectName : QString := ""
  reqData : QByteArray := []
  proxy : QNetworkProxy := ⟨"", 0⟩
  host : QString := ""
  port : UInt16 := 0
  connected : List ConnectedSlot := []
  readyRead : List ReadyReadSlot := []
  errorOccurred : ℕ := 0
  deleted : Bool := false
  deriving DecidableEq

namespace QTcpSocket

def incoming (accepted : Bool) : QTcpSocket where
  socket := { state := if accepted then .connected else .unconnected }
  readyRead := [.onSocketReadyRead]
  errorOccurred := 1

def plain (upstreamProxy : QNetworkProxy) (host : QString) (port : UInt16) (reqData : QByteArray) :
    QTcpSocket where
  socket := { state := .connecting }
  objectName := key host port
  reqData := reqData
  proxy := upstreamProxy
  host := host
  port := port
  connected := [.onProxySocketConnected]
  readyRead := [.onProxySocketReadyRead]

def tunnel (upstreamProxy : QNetworkProxy) (host : QString) (port : UInt16) : QTcpSocket where
  socket := { state := .connecting }
  proxy := upstreamProxy
  host := host
  port := port
  connected := [.onProxySocketConnectedHttps]

end QTcpSocket

/-- `upstreamProxy`, and the sockets below the `HttpProxy` object; a client's parent is this object
and is left out. -/
structure ObjectTree where
  upstreamProxy : QNetworkProxy
  sockets : Forest Pointer QTcpSocket
  deriving DecidableEq

namespace ObjectTree

def start (upstreamProxy : QNetworkProxy) : ObjectTree := ⟨upstreamProxy, .empty⟩

def change (T : ObjectTree) (x : Pointer) (f : QTcpSocket → QTcpSocket) : ObjectTree :=
  { T with sockets := T.sockets.modify x f }

def call (T : ObjectTree) (x : Pointer) (f : QAbstractSocket → QAbstractSocket) : ObjectTree :=
  T.change x fun v => { v with socket := f v.socket }

def parent (T : ObjectTree) (x : Pointer) : Option Pointer :=
  (T.sockets.node? x).bind Node.parent

/-- What `readAll` returns. -/
def unread (T : ObjectTree) (x : Pointer) : QByteArray :=
  (T.sockets.node? x).elim [] fun n => n.value.socket.incoming

/-- `findChild`, which also looks below the children. -/
def findChild (T : ObjectTree) (x : Pointer) (name : QString) : Option Pointer :=
  T.sockets.findChild (fun v => !v.deleted && v.objectName = name) T.sockets.nodes.length x

/-- `new QTcpSocket(socket)`, set up to connect. -/
def connectToHost (T : ObjectTree) (new socket : Pointer) (v : QTcpSocket) : ObjectTree :=
  { T with sockets := T.sockets.add ⟨new, some socket, v⟩ }.change socket
    -- the error of `socket`, not of the new one, is connected
    fun v => { v with errorOccurred := v.errorOccurred + 1 }

/-- `new SocketStream(a, b, this)`. -/
def newSocketStream (T : ObjectTree) (a b : Pointer) : ObjectTree :=
  (T.change a fun v => { v with readyRead := v.readyRead ++ [.onSocketAReadyRead a b] }).change b
    fun v => { v with readyRead := v.readyRead ++ [.onSocketBReadyRead a b] }

section Slots

variable (T : ObjectTree) (sender : Pointer)

def onSocketError : ObjectTree := T.call sender fun s => { s with deleteLater := true }

/-- `onSocketReadyRead`; `new` is the address that an upstream socket gets. -/
def onSocketReadyRead (t : QtText) (new : Pointer) : ObjectTree :=
  let reqData := T.unread sender
  let T := T.call sender .readAll
  match request t reqData with
  | .invalid => T.call sender .disconnectFromHost
  | .plain host port reqData =>
      match T.findChild sender (key host port) with
      | some proxySocket => T.call proxySocket (·.write reqData)
      | none => T.connectToHost new sender (.plain T.upstreamProxy host port reqData)
  | .connect host port => T.connectToHost new sender (.tunnel T.upstreamProxy host port)

def onProxySocketConnected : ObjectTree :=
  T.change sender fun p => { p with socket := p.socket.write p.reqData }

def onProxySocketConnectedHttps : ObjectTree :=
  match T.parent sender with
  | some socket =>
      let T := T.change socket fun v =>
        { v with readyRead := v.readyRead.filter (· ≠ .onSocketReadyRead) }
      (T.newSocketStream socket sender).call socket (·.write httpsHeader)
  | none => T

def onProxySocketReadyRead : ObjectTree :=
  match T.parent sender with
  | some socket => (T.call sender .readAll).call socket (·.write (T.unread sender))
  | none => T

def streamed (m_as m_bs : Pointer) (slot : SocketStream → SocketStream) : ObjectTree :=
  match T.sockets.node? m_as, T.sockets.node? m_bs with
  | some a, some b =>
      let s := slot ⟨a.value.socket, b.value.socket⟩
      (T.call m_as fun _ => s.m_as).call m_bs fun _ => s.m_bs
  | _, _ => T

def readyReadSlot (t : QtText) (new sender : Pointer) (T : ObjectTree) :
    ReadyReadSlot → ObjectTree
  | .onSocketReadyRead => T.onSocketReadyRead sender t new
  | .onProxySocketReadyRead => T.onProxySocketReadyRead sender
  | .onSocketAReadyRead m_as m_bs => T.streamed m_as m_bs .onSocketAReadyRead
  | .onSocketBReadyRead m_as m_bs => T.streamed m_as m_bs .onSocketBReadyRead

def connectedSlot (sender : Pointer) (T : ObjectTree) : ConnectedSlot → ObjectTree
  | .onProxySocketConnected => T.onProxySocketConnected sender
  | .onProxySocketConnectedHttps => T.onProxySocketConnectedHttps sender

end Slots

end ObjectTree

/-- What happens to a socket; `new` is an address that is free. -/
inductive SocketEvent where
  | connected
  | errorOccurred
  | receive (data : QByteArray)
  | readyRead (new : Pointer)
  | disconnected
  | deferredDelete
  deriving DecidableEq

/-- The state in which Qt delivers an event. -/
def QTcpSocket.Can (v : QTcpSocket) : SocketEvent → Prop
  | .connected => v.socket.state = .connecting
  | .errorOccurred => True
  | .receive _ => v.socket.state = .connected
  | .readyRead _ => v.socket.state = .connected
  | .disconnected => v.socket.state = .connected ∨ v.socket.state = .closing
  | .deferredDelete => v.socket.deleteLater = true

instance (v : QTcpSocket) : (e : SocketEvent) → Decidable (v.Can e)
  | .connected => inferInstanceAs (Decidable (v.socket.state = _))
  | .errorOccurred => inferInstanceAs (Decidable True)
  | .receive _ => inferInstanceAs (Decidable (v.socket.state = _))
  | .readyRead _ => inferInstanceAs (Decidable (v.socket.state = _))
  | .disconnected => inferInstanceAs (Decidable (v.socket.state = _ ∨ v.socket.state = _))
  | .deferredDelete => inferInstanceAs (Decidable (v.socket.deleteLater = _))

def SocketEvent.new : SocketEvent → Option Pointer
  | .readyRead new => some new
  | _ => none

inductive TreeEvent where
  | httpListen (l : Listen)
  | incomingConnection (new : Pointer) (accepted : Bool)
  | socket (sender : Pointer) (e : SocketEvent)
  deriving DecidableEq

def ReadyReadSlot.keeps (x : Pointer) : ReadyReadSlot → Bool
  | .onSocketAReadyRead m_as m_bs | .onSocketBReadyRead m_as m_bs => m_as = x || m_bs = x
  | _ => false

namespace ObjectTree

/-- The end of a socket and its children. The streams that keep it go as well: their `deleteLater`
came with the socket's. -/
def delete (T : ObjectTree) (x : Pointer) : ObjectTree :=
  { T with
    sockets := T.sockets.update fun n =>
      { n.value with
        readyRead := n.value.readyRead.filter fun slot => !slot.keeps x
        deleted := n.value.deleted || n.id = x || n.parent = some x } }

def event (t : QtText) (T : ObjectTree) (x : Pointer) (v : QTcpSocket) :
    SocketEvent → ObjectTree
  | .connected =>
      v.connected.foldl (connectedSlot x) (T.call x fun s => { s with state := .connected })
  | .errorOccurred =>
      -- an attempt to connect that fails ends without `disconnected`
      let T := if v.socket.state = .connecting then
        T.call x fun s => { s with state := .unconnected } else T
      (List.replicate v.errorOccurred ()).foldl (fun T _ => T.onSocketError x) T
  | .receive data => T.call x (·.receive data)
  | .readyRead new => v.readyRead.foldl (readyReadSlot t new x) T
  | .disconnected => T.call x .disconnected
  | .deferredDelete => T.delete x

/-- One event of the proxy, if Qt can deliver it. -/
def step (t : QtText) (T : ObjectTree) : TreeEvent → Option ObjectTree
  | .httpListen l => some { T with upstreamProxy := httpListen T.upstreamProxy l }
  | .incomingConnection new accepted =>
      if new ∈ T.sockets.ids then none
      else some { T with sockets := T.sockets.add ⟨new, none, .incoming accepted⟩ }
  | .socket x e =>
      (T.sockets.node? x).bind fun n =>
        if n.value.deleted = false ∧ n.value.Can e ∧ ∀ new ∈ e.new, new ∉ T.sockets.ids then
          some (T.event t x n.value e)
        else none

end ObjectTree

end QvPlugin.Socksify
