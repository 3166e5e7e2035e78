import QvPlugin.Socksify.HttpProxy

/-!
What holds of a client and its upstream sockets after every event: which slots it has, which sockets
its streams have, and that a live plain socket is the only one of its name.
-/

set_option autoImplicit false
set_option relaxedAutoImplicit false

namespace QvPlugin.Socksify

open Lib Qt Utils

section Key

theorem colon_notMem_number (n : ℕ) : ':' ∉ (number n).toList := by
  intro mem
  rw [number, Nat.toList_repr] at mem
  have digit := Nat.isDigit_of_mem_toDigits (by decide) (by decide) mem
  exact absurd digit (by decide)

theorem number_inj {m n : ℕ} (same : (number m).toList = (number n).toList) : m = n := by
  have digits : Nat.toDigits 10 m = Nat.toDigits 10 n := by
    rw [← Nat.toList_repr, ← Nat.toList_repr]
    exact same
  rw [← Nat.ofDigitChars_ten_toDigits (n := m), digits, Nat.ofDigitChars_ten_toDigits]

/-- The name of an upstream socket tells the host and the port, also when the host has colons. -/
theorem key_inj {host host' : QString} {port port' : UInt16} :
    key host port = key host' port' ↔ host = host' ∧ port = port' := by
  constructor
  · intro same
    have lists : host.toList ++ ':' :: (number port.toNat).toList =
        host'.toList ++ ':' :: (number port'.toNat).toList := by
      have texts := congrArg String.toList same
      simpa [key, String.toList_append] using texts
    have reversed := congrArg List.reverse lists
    rw [List.reverse_append, List.reverse_append, List.reverse_cons, List.reverse_cons,
      List.append_assoc, List.append_assoc] at reversed
    obtain ⟨ports, hosts⟩ := append_cons_inj_left
      (by simpa using colon_notMem_number port.toNat)
      (by simpa using colon_notMem_number port'.toNat) reversed
    exact ⟨String.toList_inj.mp (List.reverse_injective hosts),
      UInt16.toNat_inj.mp (number_inj (List.reverse_injective ports))⟩
  · rintro ⟨rfl, rfl⟩
    rfl

theorem key_ne_empty (host : QString) (port : UInt16) : key host port ≠ "" := by
  intro same
  have lists := congrArg String.toList same
  simp [key, String.toList_append] at lists

end Key

/-- What no event but the deletion changes of an upstream socket. -/
def ProxySocket.identity (p : ProxySocket) :
    QString × QByteArray × Bool × QString × UInt16 × QNetworkProxy × Bool × Bool :=
  (p.objectName, p.reqData, p.https, p.host, p.port, p.proxy, p.socket.isWritable, p.deleted)

def ProxySocket.purpose (p : ProxySocket) :
    QString × QByteArray × Bool × QString × UInt16 × QNetworkProxy :=
  (p.objectName, p.reqData, p.https, p.host, p.port, p.proxy)

structure ProxySocket.Later (p q : ProxySocket) : Prop where
  identity : q.identity = p.identity
  connecting : q.socket.state = .connecting → p.socket.state = .connecting

namespace ProxySocket.Later

variable {p q r : ProxySocket}

theorem refl (p : ProxySocket) : p.Later p := ⟨rfl, id⟩

theorem trans (first : p.Later q) (second : q.Later r) : p.Later r :=
  ⟨second.identity.trans first.identity, first.connecting ∘ second.connecting⟩

theorem of_socket (p : ProxySocket) {s : QAbstractSocket} (mode : s.isWritable = p.socket.isWritable)
    (state : s.state = .connecting → p.socket.state = .connecting) :
    p.Later { p with socket := s } :=
  ⟨by simp [ProxySocket.identity, mode], state⟩

theorem write (p : ProxySocket) (data : QByteArray) : p.Later (p.write data) :=
  of_socket p (by simp) (by simp only [QAbstractSocket.state_write, imp_self])

theorem readAll (p : ProxySocket) : p.Later p.readAll := of_socket p rfl id

theorem setState (p : ProxySocket) {state : SocketState} (state_ : state ≠ .connecting) :
    p.Later (p.setState state) := of_socket p rfl fun same => absurd same state_

theorem objectName (later : p.Later q) : q.objectName = p.objectName :=
  congrArg (·.1) later.identity

theorem reqData (later : p.Later q) : q.reqData = p.reqData :=
  congrArg (·.2.1) later.identity

theorem https (later : p.Later q) : q.https = p.https :=
  congrArg (·.2.2.1) later.identity

theorem host (later : p.Later q) : q.host = p.host :=
  congrArg (·.2.2.2.1) later.identity

theorem port (later : p.Later q) : q.port = p.port :=
  congrArg (·.2.2.2.2.1) later.identity

theorem proxy (later : p.Later q) : q.proxy = p.proxy :=
  congrArg (·.2.2.2.2.2.1) later.identity

theorem isWritable (later : p.Later q) : q.socket.isWritable = p.socket.isWritable :=
  congrArg (·.2.2.2.2.2.2.1) later.identity

theorem purpose (later : p.Later q) : q.purpose = p.purpose := by
  simp [ProxySocket.purpose, later.objectName, later.reqData, later.https, later.host, later.port,
    later.proxy]

theorem deleted (later : p.Later q) : q.deleted = p.deleted :=
  congrArg (·.2.2.2.2.2.2.2) later.identity

end ProxySocket.Later

namespace Client

/-- No upstream socket was added, and those there are went on. -/
structure ChildrenLater (c d : Client) : Prop where
  length : d.children.length = c.children.length
  child : ∀ (k : ℕ) (p : ProxySocket), c.children[k]? = some p →
    ∃ q, d.children[k]? = some q ∧ p.Later q

theorem ChildrenLater.of_eq {c d : Client} (same : d.children = c.children) : c.ChildrenLater d :=
  ⟨congrArg _ same, fun _ p here => ⟨p, same ▸ here, .refl p⟩⟩

theorem ChildrenLater.refl (c : Client) : c.ChildrenLater c := .of_eq rfl

theorem ChildrenLater.trans {c d e : Client} (first : c.ChildrenLater d)
    (second : d.ChildrenLater e) : c.ChildrenLater e := by
  refine ⟨second.length.trans first.length, fun k p here => ?_⟩
  obtain ⟨q, there, later⟩ := first.child k p here
  obtain ⟨r, last, laterStill⟩ := second.child k q there
  exact ⟨r, last, later.trans laterStill⟩

theorem ChildrenLater.back {c d : Client} (later : c.ChildrenLater d) {k : ℕ} {q : ProxySocket}
    (there : d.children[k]? = some q) : ∃ p, c.children[k]? = some p ∧ p.Later q := by
  have inside : k < d.children.length := (List.getElem?_eq_some_iff.mp there).1
  rw [later.length] at inside
  obtain ⟨q', there', after⟩ := later.child k _ (List.getElem?_eq_getElem inside)
  have same : q = q' := Option.some.inj (there.symm.trans there')
  exact ⟨_, List.getElem?_eq_getElem inside, same ▸ after⟩

theorem getElem?_modifyChild (c : Client) (k j : ℕ) (f : ProxySocket → ProxySocket) :
    (c.modifyChild k f).children[j]? = (c.children[j]?).map fun p => if k = j then f p else p :=
  List.getElem?_modify ..

@[simp] theorem socket_modifyChild (c : Client) (k : ℕ) (f : ProxySocket → ProxySocket) :
    (c.modifyChild k f).socket = c.socket := rfl

@[simp] theorem readyRead_modifyChild (c : Client) (k : ℕ) (f : ProxySocket → ProxySocket) :
    (c.modifyChild k f).readyRead = c.readyRead := rfl

theorem ChildrenLater.modifyChild {c d : Client} (same : d.children = c.children) {k : ℕ}
    {f : ProxySocket → ProxySocket} (later : ∀ p, c.children[k]? = some p → p.Later (f p)) :
    c.ChildrenLater (d.modifyChild k f) := by
  refine ⟨(List.length_modify ..).trans (congrArg _ same), fun j p here => ?_⟩
  refine ⟨_, by rw [getElem?_modifyChild, same, here, Option.map_some], ?_⟩
  by_cases hit : k = j
  · subst hit
    rw [if_pos rfl]
    exact later p here
  · rw [if_neg hit]
    exact .refl p

theorem pass_fixed (source dest : QAbstractSocket) :
    (pass source dest).1.state = source.state ∧ (pass source dest).2.state = dest.state ∧
      (pass source dest).1.isWritable = source.isWritable ∧
      (pass source dest).2.isWritable = dest.isWritable := by
  unfold pass
  split <;> simp

theorem streamed_of_some {c : Client} {k : ℕ} {p : ProxySocket} (here : c.children[k]? = some p)
    (slot : SocketStream → SocketStream) :
    c.streamed k slot =
      { c with socket := (slot ⟨c.socket, p.socket⟩).m_as }.modifyChild k fun p' =>
        { p' with socket := (slot ⟨c.socket, p.socket⟩).m_bs } := by
  rw [streamed, here]

theorem streamed_of_none {c : Client} {k : ℕ} (missing : c.children[k]? = none)
    (slot : SocketStream → SocketStream) : c.streamed k slot = c := by
  rw [streamed, missing]

theorem readyRead_streamed (c : Client) (k : ℕ) (slot : SocketStream → SocketStream) :
    (c.streamed k slot).readyRead = c.readyRead := by
  unfold streamed
  split <;> rfl

theorem childrenLater_streamed (c : Client) (k : ℕ) {slot : SocketStream → SocketStream}
    (mode : ∀ s, (slot s).m_bs.isWritable = s.m_bs.isWritable)
    (state : ∀ s, (slot s).m_bs.state = s.m_bs.state) : c.ChildrenLater (c.streamed k slot) := by
  cases here : c.children[k]? with
  | none =>
      rw [streamed_of_none here]
      exact .refl c
  | some p =>
      rw [streamed_of_some here]
      refine .modifyChild (by rfl) fun p' here' => ?_
      have same : p = p' := Option.some.inj (here.symm.trans here')
      subst same
      exact .of_socket p (mode _) fun connecting => (state _).symm.trans connecting

variable {t : QtText}

theorem childrenLater_callStreams (up : QNetworkProxy) {slots : List ReadSlot}
    (noHttp : ReadSlot.onSocketReadyRead ∉ slots) (c : Client) :
    c.ChildrenLater (slots.foldl (callSlot t up) c) ∧
      (slots.foldl (callSlot t up) c).readyRead = c.readyRead := by
  induction slots generalizing c with
  | nil => exact ⟨.refl c, rfl⟩
  | cons slot slots ih =>
      rw [List.mem_cons, not_or] at noHttp
      cases slot with
      | onSocketReadyRead => exact absurd rfl noHttp.1
      | stream k =>
          obtain ⟨later, kept⟩ := ih noHttp.2 (c.streamed k .onSocketAReadyRead)
          have first : c.ChildrenLater (c.streamed k .onSocketAReadyRead) :=
            childrenLater_streamed c k (fun s => (pass_fixed s.m_as s.m_bs).2.2.2)
              fun s => (pass_fixed s.m_as s.m_bs).2.1
          exact ⟨first.trans later, kept.trans (readyRead_streamed ..)⟩

theorem childrenLater_proxySocketEvent (c : Client) (k : ℕ) (p : ProxySocket)
    {e : ProxySocketEvent} (stays : e ≠ .deferredDelete) :
    c.ChildrenLater (c.proxySocketEvent k p e) := by
  have set (state : SocketState) (other : state ≠ .connecting) :
      c.ChildrenLater (c.modifyChild k (·.setState state)) :=
    .modifyChild rfl fun p _ => .setState p other
  cases e with
  | connected =>
      simp only [proxySocketEvent]
      have there := set .connected (by decide)
      split
      · exact there.trans (.of_eq rfl)
      · exact there.trans (.modifyChild rfl fun p _ => .write p _)
  | errorOccurred =>
      simp only [proxySocketEvent]
      split
      · exact set .unconnected (by decide)
      · exact .refl c
  | receive data => exact .modifyChild rfl fun p _ => .of_socket p rfl id
  | readyRead =>
      simp only [proxySocketEvent]
      split
      · split
        · exact childrenLater_streamed c k (fun s => (pass_fixed s.m_bs s.m_as).2.2.1)
            fun s => (pass_fixed s.m_bs s.m_as).1
        · exact .refl c
      · exact .modifyChild (by rfl) fun p _ => .readAll p
  | disconnected =>
      refine .modifyChild rfl fun p _ => .of_socket p rfl fun same => ?_
      have state : p.socket.disconnected.state = .unconnected := rfl
      exact absurd (state.symm.trans same) (by decide)
  | deferredDelete => exact absurd rfl stays

inductive Opens (t : QtText) (up : QNetworkProxy) (c : Client) : ProxySocket → Prop where
  | plain {host : QString} {port : UInt16} {reqData : QByteArray}
      (asked : request t c.socket.incoming = .plain host port reqData)
      (missing : c.findChild (key host port) = none) : Opens t up c (.plain up host port reqData)
  | tunnel {host : QString} {port : UInt16}
      (asked : request t c.socket.incoming = .connect host port) :
      Opens t up c (.tunnel up host port)

/-- What `onSocketReadyRead` does: it closes the client, hands a request to the socket of its name,
or opens a socket. -/
inductive Asks (t : QtText) (up : QNetworkProxy) (c : Client) : Client → Prop where
  | invalid (asked : request t c.socket.incoming = .invalid) :
      Asks t up c { c with socket := c.socket.readAll.disconnectFromHost }
  | reused {host : QString} {port : UInt16} {reqData : QByteArray} {k : ℕ}
      (asked : request t c.socket.incoming = .plain host port reqData)
      (found : c.findChild (key host port) = some k) :
      Asks t up c ({ c with socket := c.socket.readAll }.modifyChild k (·.write reqData))
  | opened {p : ProxySocket} (opens : Opens t up c p) :
      Asks t up c { c with socket := c.socket.readAll, children := c.children ++ [p] }

theorem asks_onSocketReadyRead (t : QtText) (up : QNetworkProxy) (c : Client) :
    Asks t up c (c.onSocketReadyRead t up) := by
  have same (name : QString) : findChild { c with socket := c.socket.readAll } name =
      c.findChild name := rfl
  cases asked : request t c.socket.incoming with
  | invalid =>
      simp only [onSocketReadyRead, asked]
      exact .invalid asked
  | plain host port reqData =>
      cases found : c.findChild (key host port) with
      | none =>
          simp only [onSocketReadyRead, asked, same, found]
          exact .opened (.plain asked found)
      | some k =>
          simp only [onSocketReadyRead, asked, same, found]
          exact .reused asked found
  | connect host port =>
      simp only [onSocketReadyRead, asked]
      exact .opened (.tunnel asked)

theorem findChild_eq_some {c : Client} {name : QString} {k : ℕ}
    (found : c.findChild name = some k) :
    ∃ p, c.children[k]? = some p ∧ p.deleted = false ∧ p.objectName = name := by
  obtain ⟨inside, hit, -⟩ := List.findIdx?_eq_some_iff_getElem.mp found
  refine ⟨c.children[k], List.getElem?_eq_getElem inside, ?_⟩
  simpa using hit

theorem findChild_eq_none {c : Client} {name : QString} (missing : c.findChild name = none)
    {k : ℕ} {p : ProxySocket} (here : c.children[k]? = some p) (live : p.deleted = false) :
    p.objectName ≠ name := by
  have miss := List.findIdx?_eq_none_iff.mp missing p (List.mem_of_getElem? here)
  simpa [live] using miss

structure Inv (c : Client) : Prop where
  slots : c.readyRead = [.onSocketReadyRead] ∨ ReadSlot.onSocketReadyRead ∉ c.readyRead
  nodup : c.readyRead.Nodup
  streams : ∀ k, ReadSlot.stream k ∈ c.readyRead → ∃ p, c.children[k]? = some p ∧
    p.deleted = false ∧ p.https = true ∧ p.socket.state ≠ .connecting
  named : ∀ (k : ℕ) (p : ProxySocket), c.children[k]? = some p →
    p.objectName = if p.https then "" else key p.host p.port
  writable : ∀ (k : ℕ) (p : ProxySocket), c.children[k]? = some p → p.socket.isWritable = true
  unique : ∀ (i j : ℕ) (p q : ProxySocket), c.children[i]? = some p → c.children[j]? = some q →
    p.deleted = false → q.deleted = false → p.https = false → p.objectName = q.objectName → i = j
  clientWritable : c.socket.isWritable = true

theorem inv_incoming (accepted : Bool) : (incoming accepted).Inv where
  slots := Or.inl rfl
  nodup := List.nodup_singleton _
  streams k mem := absurd (List.mem_singleton.mp mem) (by simp)
  named k p here := absurd here (by simp [incoming])
  writable k p here := absurd here (by simp [incoming])
  unique i j p q here := absurd here (by simp [incoming])
  clientWritable := rfl

theorem step_eq_some {c c' : Client} {a : QNetworkProxy × ClientEvent} :
    c.step t a = some c' ↔ c.Can a.2 ∧ c.event t a = some c' := by
  rw [step]
  split <;> simp_all

theorem event_proxySocket {c c' : Client} {up : QNetworkProxy} {k : ℕ} {e : ProxySocketEvent} :
    c.event t (up, .proxySocket k e) = some c' ↔
      ∃ p, c.children[k]? = some p ∧ p.deleted = false ∧ p.Can e ∧
        c' = c.proxySocketEvent k p e := by
  rw [event, Option.bind_eq_some_iff]
  refine exists_congr fun p => and_congr_right fun _ => ?_
  by_cases can : p.deleted = false ∧ p.Can e
  · rw [if_pos can, Option.some.injEq]
    exact ⟨fun same => ⟨can.1, can.2, same.symm⟩, fun all => all.2.2.symm⟩
  · rw [if_neg can]
    exact ⟨fun same => absurd same (by simp), fun all => absurd ⟨all.1, all.2.1⟩ can⟩

/-- What an event does to the upstream sockets and the slots of a client. -/
inductive Shape (t : QtText) (up : QNetworkProxy) (c : Client) : ClientEvent → Client → Prop where
  | kept {e : ClientEvent} {c' : Client} (later : c.ChildrenLater c')
      (slots : c'.readyRead = c.readyRead) : Shape t up c e c'
  | opened {c' : Client} {p : ProxySocket} (opens : Opens t up c p)
      (http : c.readyRead = [.onSocketReadyRead]) (slots : c'.readyRead = c.readyRead)
      (children : c'.children = c.children ++ [p]) : Shape t up c .readyRead c'
  | tunnelled {k : ℕ} {p : ProxySocket} (here : c.children[k]? = some p)
      (live : p.deleted = false) (https : p.https = true)
      (connecting : p.socket.state = .connecting) :
      Shape t up c (.proxySocket k .connected)
        ((c.modifyChild k (·.setState .connected)).onProxySocketConnectedHttps k)
  | deleted {k : ℕ} {p : ProxySocket} (here : c.children[k]? = some p) :
      Shape t up c (.proxySocket k .deferredDelete) (c.proxySocketEvent k p .deferredDelete)

theorem event_readyRead_http {c : Client} (http : c.readyRead = [.onSocketReadyRead])
    (up : QNetworkProxy) : c.event t (up, .readyRead) = some (c.onSocketReadyRead t up) := by
  rw [event, http]
  rfl

theorem shape_of_step {c c' : Client} {up : QNetworkProxy} {e : ClientEvent} (inv : c.Inv)
    (stepped : c.step t (up, e) = some c') : Shape t up c e c' := by
  obtain ⟨-, happened⟩ := step_eq_some.mp stepped
  cases e with
  | receive data =>
      cases happened
      exact .kept (.of_eq rfl) rfl
  | errorOccurred =>
      cases happened
      exact .kept (.of_eq rfl) rfl
  | disconnected =>
      cases happened
      exact .kept (.of_eq rfl) rfl
  | readyRead =>
      rcases inv.slots with http | noHttp
      · rw [event_readyRead_http http, Option.some.injEq] at happened
        have asks := asks_onSocketReadyRead t up c
        rw [happened] at asks
        cases asks with
        | invalid asked => exact .kept (.of_eq rfl) rfl
        | reused asked found =>
            exact .kept (.modifyChild (by rfl) fun p _ => .write p _) rfl
        | opened opens => exact .opened opens http rfl rfl
      · cases happened
        obtain ⟨later, slots⟩ := childrenLater_callStreams up noHttp c
        exact .kept later slots
  | proxySocket k e =>
      obtain ⟨p, here, live, can, rfl⟩ := event_proxySocket.mp happened
      by_cases last : e = .deferredDelete
      · subst last
        exact .deleted here
      · have later := childrenLater_proxySocketEvent c k p last
        cases e with
        | connected =>
            by_cases https : p.https = true
            · have shape : Shape t up _ _ _ := Shape.tunnelled here live https can
              simp only [proxySocketEvent, https, if_true]
              exact shape
            · refine .kept later ?_
              simp only [proxySocketEvent, https]
              rfl
        | errorOccurred =>
            refine .kept later ?_
            simp only [proxySocketEvent]
            split <;> rfl
        | receive data => exact .kept later rfl
        | readyRead =>
            refine .kept later ?_
            simp only [proxySocketEvent]
            split
            · split
              · exact readyRead_streamed ..
              · rfl
            · rfl
        | disconnected => exact .kept later rfl
        | deferredDelete => exact absurd rfl last

section Socket

inductive Origin where
  | header (k : ℕ)
  | relayed (k : ℕ)
  deriving DecidableEq

def answers : Client × QNetworkProxy × ClientEvent → List (Origin × QByteArray)
  | (c, _, .proxySocket k .connected) =>
      match c.children[k]? with
      | some p => if p.https then [(.header k, httpsHeader)] else []
      | none => []
  | (c, _, .proxySocket k .readyRead) =>
      match c.children[k]? with
      | some p =>
          if p.https = false ∨ ReadSlot.stream k ∈ c.readyRead then
            [(.relayed k, p.socket.incoming)]
          else []
      | none => []
  | _ => []

theorem pass_of_writable {source dest : QAbstractSocket} (open_ : dest.isWritable = true) :
    pass source dest = (source.readAll, dest.write source.incoming) := if_pos open_

theorem socket_streamed_B {c : Client} {k : ℕ} {p : ProxySocket} (here : c.children[k]? = some p)
    (open_ : c.socket.isWritable = true) :
    (c.streamed k .onSocketBReadyRead).socket = c.socket.write p.socket.incoming := by
  rw [streamed_of_some here, SocketStream.onSocketBReadyRead, pass_of_writable open_]
  rfl

theorem socket_streamed_A {c : Client} {k : ℕ} {p : ProxySocket} (here : c.children[k]? = some p)
    (open_ : p.socket.isWritable = true) :
    (c.streamed k .onSocketAReadyRead).socket = c.socket.readAll := by
  rw [streamed_of_some here, SocketStream.onSocketAReadyRead, pass_of_writable open_]
  rfl

/-- An event of an upstream socket does nothing to the client but write to it. -/
theorem socket_proxySocketEvent {c : Client} (open_ : c.socket.isWritable = true) {k : ℕ}
    {p : ProxySocket} (here : c.children[k]? = some p) (up : QNetworkProxy)
    (e : ProxySocketEvent) :
    (c.proxySocketEvent k p e).socket =
      (answers (c, up, .proxySocket k e)).foldl (fun s a => s.write a.2) c.socket := by
  cases e with
  | connected =>
      simp only [proxySocketEvent, answers, here]
      by_cases https : p.https = true
      · simp [https, onProxySocketConnectedHttps]
      · simp [https, onProxySocketConnected]
  | errorOccurred =>
      simp only [proxySocketEvent, answers]
      split <;> rfl
  | receive data => rfl
  | readyRead =>
      simp only [proxySocketEvent, answers, here]
      by_cases https : p.https = true
      · by_cases stream : ReadSlot.stream k ∈ c.readyRead
        · simp [https, stream, socket_streamed_B here open_]
        · simp [https, stream]
      · simp [https, onProxySocketReadyRead]
  | disconnected => rfl
  | deferredDelete => rfl

theorem socket_callStreams (up : QNetworkProxy) {c : Client} {slots : List ReadSlot}
    (noHttp : ReadSlot.onSocketReadyRead ∉ slots)
    (open_ : ∀ k, ReadSlot.stream k ∈ slots →
      ∃ p, c.children[k]? = some p ∧ p.socket.isWritable = true) :
    (slots.foldl (callSlot t up) c).socket = if slots = [] then c.socket else c.socket.readAll := by
  induction slots generalizing c with
  | nil => rfl
  | cons slot slots ih =>
      rw [List.mem_cons, not_or] at noHttp
      cases slot with
      | onSocketReadyRead => exact absurd rfl noHttp.1
      | stream k =>
          obtain ⟨p, here, wide⟩ := open_ k List.mem_cons_self
          have first := socket_streamed_A here wide
          have later : c.ChildrenLater (c.streamed k .onSocketAReadyRead) :=
            childrenLater_streamed c k (fun s => (pass_fixed s.m_as s.m_bs).2.2.2)
              fun s => (pass_fixed s.m_as s.m_bs).2.1
          rw [if_neg (by simp), List.foldl_cons]
          have rest := ih (c := c.streamed k .onSocketAReadyRead) noHttp.2 fun j mem => by
            obtain ⟨q, there, wideQ⟩ := open_ j (List.mem_cons_of_mem _ mem)
            obtain ⟨q', there', after⟩ := later.child j q there
            exact ⟨q', there', after.isWritable.trans wideQ⟩
          rw [callSlot, rest, first]
          split <;> rfl

end Socket

section Preserved

variable {c c' : Client} {up : QNetworkProxy} {e : ClientEvent}

theorem Inv.openStreams (inv : c.Inv) (k : ℕ) (mem : ReadSlot.stream k ∈ c.readyRead) :
    ∃ p, c.children[k]? = some p ∧ p.socket.isWritable = true := by
  obtain ⟨p, here, -⟩ := inv.streams k mem
  exact ⟨p, here, inv.writable k p here⟩

theorem isWritable_foldl_write (s : QAbstractSocket) (data : List (Origin × QByteArray)) :
    (data.foldl (fun s a => s.write a.2) s).isWritable = s.isWritable := by
  induction data generalizing s with
  | nil => rfl
  | cons a data ih => rw [List.foldl_cons, ih, QAbstractSocket.isWritable_write]

theorem isWritable_step (inv : c.Inv) (stepped : c.step t (up, e) = some c') :
    c'.socket.isWritable = c.socket.isWritable := by
  obtain ⟨-, happened⟩ := step_eq_some.mp stepped
  cases e with
  | receive data => cases happened; rfl
  | errorOccurred => cases happened; rfl
  | disconnected => cases happened; rfl
  | readyRead =>
      rcases inv.slots with http | noHttp
      · rw [event_readyRead_http http, Option.some.injEq] at happened
        have asks := asks_onSocketReadyRead t up c
        rw [happened] at asks
        cases asks with
        | invalid asked => exact QAbstractSocket.isWritable_disconnectFromHost _
        | reused asked found => rfl
        | opened opens => rfl
      · cases happened
        rw [socket_callStreams up noHttp inv.openStreams]
        split <;> rfl
  | proxySocket k e =>
      obtain ⟨p, here, -, -, rfl⟩ := event_proxySocket.mp happened
      rw [socket_proxySocketEvent inv.clientWritable here up e, isWritable_foldl_write]

theorem Inv.kept (inv : c.Inv) (later : c.ChildrenLater c') (slots : c'.readyRead = c.readyRead)
    (mode : c'.socket.isWritable = true) : c'.Inv where
  slots := by rw [slots]; exact inv.slots
  nodup := by rw [slots]; exact inv.nodup
  streams k mem := by
    obtain ⟨p, here, live, https, made⟩ := inv.streams k (slots ▸ mem)
    obtain ⟨q, there, after⟩ := later.child k p here
    exact ⟨q, there, after.deleted.trans live, after.https.trans https,
      fun again => made (after.connecting again)⟩
  named k q there := by
    obtain ⟨p, here, after⟩ := later.back there
    rw [after.objectName, after.https, after.host, after.port]
    exact inv.named k p here
  writable k q there := by
    obtain ⟨p, here, after⟩ := later.back there
    exact after.isWritable.trans (inv.writable k p here)
  unique i j q q' there there' live live' plain same := by
    obtain ⟨p, here, after⟩ := later.back there
    obtain ⟨p', here', after'⟩ := later.back there'
    rw [after.deleted] at live
    rw [after'.deleted] at live'
    rw [after.https] at plain
    rw [after.objectName, after'.objectName] at same
    exact inv.unique i j p p' here here' live live' plain same
  clientWritable := mode

theorem getElem?_concat {α : Type} {xs : List α} {x y : α} {k : ℕ}
    (here : (xs ++ [x])[k]? = some y) : xs[k]? = some y ∨ k = xs.length ∧ y = x := by
  rw [List.getElem?_append] at here
  by_cases old : k < xs.length
  · rw [if_pos old] at here
    exact Or.inl here
  · rw [if_neg old] at here
    have inside := (List.getElem?_eq_some_iff.mp here).1
    rw [List.length_singleton] at inside
    have zero : k - xs.length = 0 := by omega
    rw [zero] at here
    exact Or.inr ⟨by omega, (Option.some.inj here).symm⟩

theorem Opens.unnamed {p : ProxySocket} (opens : Opens t up c p) (plain : p.https = false)
    {k : ℕ} {q : ProxySocket} (here : c.children[k]? = some q) (live : q.deleted = false) :
    q.objectName ≠ p.objectName := by
  cases opens with
  | plain asked missing => exact findChild_eq_none missing here live
  | tunnel asked => exact absurd plain (by simp [ProxySocket.tunnel])

theorem Opens.unnamed_plain {p : ProxySocket} (inv : c.Inv) (opens : Opens t up c p)
    {k : ℕ} {q : ProxySocket} (here : c.children[k]? = some q) (live : q.deleted = false)
    (plain : q.https = false) : q.objectName ≠ p.objectName := by
  cases opens with
  | plain asked missing => exact findChild_eq_none missing here live
  | tunnel asked =>
      have name := inv.named k q here
      rw [if_neg (by simp [plain])] at name
      rw [name]
      exact key_ne_empty q.host q.port

theorem Inv.opened {p : ProxySocket} (inv : c.Inv) (opens : Opens t up c p)
    (http : c.readyRead = [.onSocketReadyRead]) (slots : c'.readyRead = c.readyRead)
    (children : c'.children = c.children ++ [p]) (mode : c'.socket.isWritable = true) : c'.Inv where
  slots := by rw [slots]; exact inv.slots
  nodup := by rw [slots]; exact inv.nodup
  streams k mem := by
    rw [slots, http] at mem
    exact absurd (List.mem_singleton.mp mem) (by simp)
  named k q there := by
    rw [children] at there
    rcases getElem?_concat there with here | ⟨-, rfl⟩
    · exact inv.named k q here
    · cases opens <;> rfl
  writable k q there := by
    rw [children] at there
    rcases getElem?_concat there with here | ⟨-, rfl⟩
    · exact inv.writable k q here
    · cases opens <;> rfl
  unique i j q q' there there' live live' plain same := by
    rw [children] at there there'
    rcases getElem?_concat there with here | ⟨atEnd, rfl⟩
    · rcases getElem?_concat there' with here' | ⟨-, rfl⟩
      · exact inv.unique i j q q' here here' live live' plain same
      · exact absurd same (opens.unnamed_plain inv here live plain)
    · rcases getElem?_concat there' with here' | ⟨atEnd', -⟩
      · exact absurd same.symm (opens.unnamed plain here' live')
      · exact atEnd.trans atEnd'.symm
  clientWritable := mode

theorem Inv.tunnelled (inv : c.Inv) {k : ℕ} {p : ProxySocket} (here : c.children[k]? = some p)
    (live : p.deleted = false) (https : p.https = true)
    (connecting : p.socket.state = .connecting) :
    ((c.modifyChild k (·.setState .connected)).onProxySocketConnectedHttps k).Inv := by
  have fresh : ReadSlot.stream k ∉ c.readyRead := by
    intro mem
    obtain ⟨q, there, -, -, made⟩ := inv.streams k mem
    have same : p = q := Option.some.inj (here.symm.trans there)
    exact made (same ▸ connecting)
  have later : c.ChildrenLater (c.modifyChild k (·.setState .connected)) :=
    .modifyChild rfl fun p _ => .setState p (by decide)
  have moved := inv.kept later rfl inv.clientWritable
  refine { moved with
    slots := Or.inr ?_, nodup := ?_, streams := fun j mem => ?_
    clientWritable := (QAbstractSocket.isWritable_write ..).trans inv.clientWritable }
  · simp [onProxySocketConnectedHttps]
  · rw [onProxySocketConnectedHttps, readyRead_modifyChild]
    refine List.nodup_append.mpr ⟨inv.nodup.filter _, List.nodup_singleton _, ?_⟩
    rintro slot mem _ mem' rfl
    rw [List.mem_singleton.mp mem'] at mem
    exact fresh (List.mem_filter.mp mem).1
  · rw [onProxySocketConnectedHttps, readyRead_modifyChild, List.mem_append] at mem
    rcases mem with old | new
    · exact moved.streams j (List.mem_filter.mp old).1
    · have same : j = k := by simpa using new
      subst same
      refine ⟨p.setState .connected, ?_, live, https, by simp [ProxySocket.setState]⟩
      have there := getElem?_modifyChild c j j (·.setState .connected)
      rw [here, Option.map_some, if_pos rfl] at there
      exact there

theorem Inv.deleted (inv : c.Inv) (k : ℕ) (p : ProxySocket) :
    (c.proxySocketEvent k p .deferredDelete).Inv := by
  have back {j : ℕ} {q : ProxySocket}
      (there : (c.proxySocketEvent k p .deferredDelete).children[j]? = some q) :
      ∃ q', c.children[j]? = some q' ∧ q = if k = j then { q' with deleted := true } else q' := by
    simp only [proxySocketEvent] at there
    rw [getElem?_modifyChild, Option.map_eq_some_iff] at there
    obtain ⟨q', old, rfl⟩ := there
    exact ⟨q', old, rfl⟩
  have slots : (c.proxySocketEvent k p .deferredDelete).readyRead =
      c.readyRead.filter (· ≠ ReadSlot.stream k) := rfl
  refine ⟨?_, ?_, fun j mem => ?_, fun j q there => ?_, fun j q there => ?_,
    fun i j q q' there there' live live' plain same => ?_, inv.clientWritable⟩
  · rw [slots]
    rcases inv.slots with http | noHttp
    · rw [http]
      exact Or.inl rfl
    · exact Or.inr fun mem => noHttp (List.mem_filter.mp mem).1
  · rw [slots]
    exact inv.nodup.filter _
  · rw [slots, List.mem_filter] at mem
    obtain ⟨q, old, live, https, made⟩ := inv.streams j mem.1
    have other : ¬ k = j := by
      rintro rfl
      exact absurd mem.2 (by simp)
    refine ⟨q, ?_, live, https, made⟩
    simp only [proxySocketEvent]
    rw [getElem?_modifyChild, old, Option.map_some, if_neg other]
  · obtain ⟨q', old, rfl⟩ := back there
    have name := inv.named j q' old
    split <;> exact name
  · obtain ⟨q', old, rfl⟩ := back there
    have mode := inv.writable j q' old
    split <;> exact mode
  · obtain ⟨r, old, rfl⟩ := back there
    obtain ⟨r', old', rfl⟩ := back there'
    by_cases hit : k = i
    · rw [if_pos hit] at live
      exact absurd live (by simp)
    · by_cases hit' : k = j
      · rw [if_pos hit'] at live'
        exact absurd live' (by simp)
      · rw [if_neg hit] at live plain same
        rw [if_neg hit'] at live' same
        exact inv.unique i j r r' old old' live live' plain same

theorem inv_step (inv : c.Inv) (stepped : c.step t (up, e) = some c') : c'.Inv := by
  have mode : c'.socket.isWritable = true :=
    (isWritable_step inv stepped).trans inv.clientWritable
  cases shape_of_step inv stepped with
  | kept later slots => exact inv.kept later slots mode
  | opened opens http slots children => exact inv.opened opens http slots children mode
  | tunnelled here live https connecting => exact inv.tunnelled here live https connecting
  | deleted here => exact inv.deleted _ _

/-- No event drops an upstream socket or changes what it is for. -/
theorem purpose_step (inv : c.Inv) (stepped : c.step t (up, e) = some c') {k : ℕ}
    {p : ProxySocket} (here : c.children[k]? = some p) :
    ∃ q, c'.children[k]? = some q ∧ q.purpose = p.purpose := by
  have later {d : Client} (later : c.ChildrenLater d) :
      ∃ q, d.children[k]? = some q ∧ q.purpose = p.purpose := by
    obtain ⟨q, there, after⟩ := later.child k p here
    exact ⟨q, there, after.purpose⟩
  cases shape_of_step inv stepped with
  | kept kept slots => exact later kept
  | opened opens http slots children =>
      have inside := (List.getElem?_eq_some_iff.mp here).1
      exact ⟨p, by rw [children, List.getElem?_append_left inside, here], rfl⟩
  | @tunnelled j q there live https connecting =>
      have kept : c.ChildrenLater (c.modifyChild j (·.setState .connected)) :=
        .modifyChild rfl fun p _ => .setState p (by decide)
      exact later (kept.trans (.of_eq rfl))
  | @deleted j q there =>
      refine ⟨if j = k then { p with deleted := true } else p, ?_, by split <;> rfl⟩
      simp only [proxySocketEvent]
      rw [getElem?_modifyChild, here, Option.map_some]

theorem connecting_step (inv : c.Inv) (stepped : c.step t (up, e) = some c') {k : ℕ}
    {p q : ProxySocket} (here : c.children[k]? = some p) (there : c'.children[k]? = some q)
    (again : q.socket.state = .connecting) : p.socket.state = .connecting := by
  have later {d : Client} (later : c.ChildrenLater d) (inD : d.children[k]? = some q) :
      p.socket.state = .connecting := by
    obtain ⟨q', there', after⟩ := later.child k p here
    exact after.connecting (Option.some.inj (inD.symm.trans there') ▸ again)
  cases shape_of_step inv stepped with
  | kept kept slots => exact later kept there
  | opened opens http slots children =>
      have inside := (List.getElem?_eq_some_iff.mp here).1
      rw [children, List.getElem?_append_left inside] at there
      exact Option.some.inj (here.symm.trans there) ▸ again
  | @tunnelled j r _ live https connecting =>
      have kept : c.ChildrenLater (c.modifyChild j (·.setState .connected)) :=
        .modifyChild rfl fun p _ => .setState p (by decide)
      exact later (kept.trans (.of_eq rfl)) there
  | @deleted j r _ =>
      simp only [proxySocketEvent] at there
      rw [getElem?_modifyChild, here, Option.map_some, Option.some.injEq] at there
      rw [← there] at again
      split at again <;> exact again

end Preserved

end Client

end QvPlugin.Socksify
