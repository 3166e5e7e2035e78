import QvPlugin.Socksify.TreeView

/-!
The object tree refines the family of clients: an event of a socket is one event of the client that
it belongs to, and a run of the tree is one of the family.
-/

set_option autoImplicit false
set_option relaxedAutoImplicit false

namespace QvPlugin.Socksify

open Lib Qt

/-- An event of a client's socket; one that is never connecting has no `connected`. -/
def SocketEvent.ofClient : SocketEvent → Option ConnectionEvent
  | .connected => none
  | .errorOccurred => some (.client .errorOccurred)
  | .receive data => some (.client (.receive data))
  | .readyRead _ => some (.client .readyRead)
  | .disconnected => some (.client .disconnected)
  | .deferredDelete => some .deferredDelete

def SocketEvent.ofProxySocket : SocketEvent → ProxySocketEvent
  | .connected => .connected
  | .errorOccurred => .errorOccurred
  | .receive data => .receive data
  | .readyRead _ => .readyRead
  | .disconnected => .disconnected
  | .deferredDelete => .deferredDelete

namespace ObjectTree

def proxy (T : ObjectTree) : HttpProxy Pointer := ⟨T.upstreamProxy, T.view⟩

def proxyEvent (T : ObjectTree) : TreeEvent → Option (HttpProxyEvent Pointer)
  | .httpListen l => some (.env l)
  | .incomingConnection new accepted => some (.member new (.incomingConnection accepted))
  | .socket x e =>
      (T.sockets.node? x).bind fun n =>
        match n.parent with
        | none => e.ofClient.map (.member x)
        | some i => some
            (.member i (.client (.proxySocket (T.sockets.index i x) e.ofProxySocket)))

section ClientEvent

variable {t : QtText} {T : ObjectTree} {i : Pointer} {n : Node Pointer QTcpSocket} {c : Client}

theorem view_onSocketErrors (seen : T.view i = some c) {l : List Unit} (some_ : l ≠ []) :
    (l.foldl (fun T _ => T.onSocketError i) T).view i =
      some { c with socket := { c.socket with deleteLater := true } } := by
  induction l generalizing T c with
  | nil => exact absurd rfl some_
  | cons _ l ih =>
      have first := view_call_self seen fun s => { s with deleteLater := true }
      cases l with
      | nil => exact first
      | cons u l =>
          have rest := ih first (List.cons_ne_nil u l)
          exact rest

theorem view_delete_self (T : ObjectTree) (i : Pointer) : (T.delete i).view i = none := by
  rw [view, delete, Forest.node?_update]
  cases found : T.sockets.node? i with
  | none => rfl
  | some n => simp [(Forest.node?_eq_some_iff.mp found).2]

theorem view_clientEvent (inv : T.Inv) (own : T.sockets.node? i = some n)
    (root : n.parent = none) (live : n.value.deleted = false) {e : SocketEvent}
    (can : n.value.Can e) (fresh : ∀ new ∈ e.new, new ∉ T.sockets.ids) :
    ∃ a, e.ofClient = some a ∧
      connectionStep t (T.view i) (T.upstreamProxy, a) =
        some ((T.event t i n.value e).view i) := by
  have seen : T.view i = some (T.clientOf n) := view_eq_some_iff.mpr ⟨n, own, root, live, rfl⟩
  have named : n.id = i := (Forest.node?_eq_some_iff.mp own).2
  have ok := inv.client i n own root
  have stepped {a : ClientEvent} {c : Client} (can' : (T.clientOf n).Can a)
      (happened : (T.clientOf n).event t (T.upstreamProxy, a) = some c) :
      connectionStep t (T.view i) (T.upstreamProxy, .client a) = some (some c) := by
    rw [seen, connectionStep, Client.step, if_pos can', happened, Option.map_some]
  cases e with
  | connected => exact absurd can ok.state
  | errorOccurred =>
      refine ⟨_, rfl, ?_⟩
      have connected : List.replicate n.value.errorOccurred () ≠ [] := by
        simpa using ok.errorOccurred
      rw [stepped (a := .errorOccurred) trivial rfl, event, if_neg ok.state,
        view_onSocketErrors seen connected]
  | receive data =>
      refine ⟨_, rfl, ?_⟩
      rw [stepped (a := .receive data) can rfl, event, view_call_self seen]
  | readyRead new =>
      refine ⟨_, rfl, ?_⟩
      rw [stepped (a := .readyRead) can rfl, event]
      rcases ok.readyRead with http | streams
      · have slots : (T.clientOf n).readyRead = [.onSocketReadyRead] := by
          rw [clientOf, http]
          rfl
        rw [http, slots]
        exact congrArg some (view_onSocketReadyRead inv seen (fresh new rfl)).symm
      · rw [named] at streams
        rw [view_foldl_streams T.upstreamProxy seen streams, ← named]
        rfl
  | disconnected =>
      refine ⟨_, rfl, ?_⟩
      rw [stepped (a := .disconnected) can rfl, event, view_call_self seen]
  | deferredDelete =>
      refine ⟨_, rfl, ?_⟩
      have deleted : (T.clientOf n).socket.deleteLater = true := can
      rw [seen, connectionStep, if_pos deleted, event, view_delete_self]

end ClientEvent

section ProxySocketEvent

variable {t : QtText} {T : ObjectTree} {x : Pointer} {m n : Node Pointer QTcpSocket}

theorem can_ofProxySocket (ok : ProxySocketOk m n) {e : SocketEvent} (can : n.value.Can e) :
    n.value.toProxySocket.Can e.ofProxySocket := by
  cases e with
  | disconnected => exact can.resolve_right ok.state
  | _ => exact can

theorem stream_mem_iff (inv : T.Inv) (held : T.sockets.node? m.id = some m)
    (root : m.parent = none) (own : T.sockets.node? x = some n) (child : n.parent = some m.id) :
    ReadSlot.stream (T.sockets.index m.id x) ∈ (T.clientOf m).readyRead ↔
      ReadyReadSlot.onSocketAReadyRead m.id x ∈ m.value.readyRead := by
  rw [clientOf, List.mem_filterMap]
  constructor
  · rintro ⟨slot, mem, shown⟩
    rcases (inv.client m.id m held root).readyRead with http | streams
    · rw [http, List.mem_singleton] at mem
      subst mem
      exact absurd (Option.some.inj shown) ReadSlot.noConfusion
    · obtain ⟨y, rfl, below⟩ := streams slot mem
      obtain ⟨k, heldY, childY⟩ := parent_eq_some_iff.mp below
      have place : T.sockets.index m.id y = T.sockets.index m.id x :=
        ReadSlot.stream.inj (Option.some.inj shown)
      rwa [Forest.index_inj heldY childY own child place] at mem
  · exact fun mem => ⟨_, mem, rfl⟩

theorem view_connected (own : T.sockets.node? x = some n) (child : n.parent = some m.id)
    (seen : T.view m.id = some (T.clientOf m)) (ok : ProxySocketOk m n) :
    (T.event t x n.value .connected).view m.id = some
      ((T.clientOf m).proxySocketEvent (T.sockets.index m.id x) n.value.toProxySocket
        .connected) := by
  have below : T.parent x = some m.id := parent_eq_some_iff.mpr ⟨n, own, child⟩
  have first := view_call_child seen below fun s => { s with state := .connected }
  have below' : (T.call x fun s => { s with state := .connected }).parent x = some m.id := by
    rw [call, parent_change, below]
  rcases ok.connected with plain | tunnel
  · have http : n.value.toProxySocket.https = false := by
      simp [QTcpSocket.toProxySocket, plain.1]
    have later := view_change_child first below'
      (f := fun v => { v with socket := v.socket.write v.reqData })
      (g := fun p => p.write p.reqData) fun _ => rfl
    rw [index_call] at later
    simp only [Client.proxySocketEvent, http, Bool.false_eq_true,
      if_false]
    rw [event, plain.1]
    exact later
  · have https : n.value.toProxySocket.https = true := by
      simp [QTcpSocket.toProxySocket, tunnel.1]
    have later := view_onProxySocketConnectedHttps first below'
    rw [index_call] at later
    simp only [Client.proxySocketEvent, https, if_true]
    rw [event, tunnel.1]
    exact later

theorem view_readyRead (inv : T.Inv) (own : T.sockets.node? x = some n)
    (held : T.sockets.node? m.id = some m) (child : n.parent = some m.id)
    (seen : T.view m.id = some (T.clientOf m)) (ok : ProxySocketOk m n) (new : Pointer) :
    (T.event t x n.value (.readyRead new)).view m.id = some
      ((T.clientOf m).proxySocketEvent (T.sockets.index m.id x) n.value.toProxySocket
        .readyRead) := by
  have below : T.parent x = some m.id := parent_eq_some_iff.mpr ⟨n, own, child⟩
  have named : n.id = x := (Forest.node?_eq_some_iff.mp own).2
  rw [event]
  simp only [Client.proxySocketEvent]
  rcases ok.connected with plain | ⟨https, none | stream⟩
  · have http : n.value.toProxySocket.https = false := by
      simp [QTcpSocket.toProxySocket, plain.1]
    have unread : T.unread x = n.value.socket.incoming := by
      rw [ObjectTree.unread, own]
      rfl
    rw [plain.2, http, if_neg Bool.false_ne_true]
    have read := view_call_self (view_call_child seen below .readAll)
      (·.write n.value.socket.incoming)
    rw [← unread] at read
    simp only [List.foldl_cons, List.foldl_nil, readyReadSlot, onProxySocketReadyRead, below]
    rw [read, unread]
    rfl
  · have tunnel : n.value.toProxySocket.https = true := by
      simp [QTcpSocket.toProxySocket, https]
    have noStream : ReadSlot.stream (T.sockets.index m.id x) ∉ (T.clientOf m).readyRead := by
      rw [stream_mem_iff inv held ok.root own child, ← named]
      exact none.1
    rw [none.2, tunnel, if_pos rfl, if_neg noStream]
    exact seen
  · have tunnel : n.value.toProxySocket.https = true := by
      simp [QTcpSocket.toProxySocket, https]
    have streams : ReadSlot.stream (T.sockets.index m.id x) ∈ (T.clientOf m).readyRead := by
      rw [stream_mem_iff inv held ok.root own child, ← named]
      exact stream.1
    rw [stream.2.1, tunnel, if_pos rfl, if_pos streams, named]
    exact view_streamed seen below .onSocketBReadyRead

theorem view_proxySocketEvent (inv : T.Inv) (own : T.sockets.node? x = some n)
    (held : T.sockets.node? m.id = some m) (child : n.parent = some m.id)
    (live : m.value.deleted = false) (ok : ProxySocketOk m n) (e : SocketEvent) :
    (T.event t x n.value e).view m.id = some
      ((T.clientOf m).proxySocketEvent (T.sockets.index m.id x) n.value.toProxySocket
        e.ofProxySocket) := by
  have seen : T.view m.id = some (T.clientOf m) :=
    view_eq_some_iff.mpr ⟨m, held, ok.root, live, rfl⟩
  have below : T.parent x = some m.id := parent_eq_some_iff.mpr ⟨n, own, child⟩
  cases e with
  | connected => exact view_connected own child seen ok
  | errorOccurred =>
      rw [event, ok.errorOccurred]
      simp only [SocketEvent.ofProxySocket, Client.proxySocketEvent]
      by_cases connecting : n.value.socket.state = .connecting
      · have connecting' : n.value.toProxySocket.socket.state = .connecting := connecting
        rw [if_pos connecting, if_pos connecting']
        exact view_call_child seen below fun s => { s with state := .unconnected }
      · have connecting' : n.value.toProxySocket.socket.state ≠ .connecting := connecting
        rw [if_neg connecting, if_neg connecting']
        exact seen
  | receive data => exact view_call_child seen below (·.receive data)
  | readyRead new => exact view_readyRead inv own held child seen ok new
  | disconnected => exact view_call_child seen below .disconnected
  | deferredDelete => exact view_delete_child inv seen below

end ProxySocketEvent

section Step

variable {t : QtText} {T T' : ObjectTree} {i x : Pointer} {e : TreeEvent}

theorem view_of_not_mem (absent : i ∉ T.sockets.ids) : T.view i = none := by
  rw [view, Forest.node?_eq_none_iff.mpr absent, Option.bind_none]

theorem view_incomingConnection (inv : T.Inv) (fresh : i ∉ T.sockets.ids) (accepted : Bool) :
    view { T with sockets := T.sockets.add ⟨i, none, .incoming accepted⟩ } i =
      some (.incoming accepted) := by
  have free : (⟨i, none, .incoming accepted⟩ : Node Pointer QTcpSocket).id ∉ T.sockets.ids := fresh
  have none_ : T.sockets.children i = [] := by
    rw [List.eq_nil_iff_forall_not_mem]
    intro n mem
    obtain ⟨listed, child⟩ := Forest.mem_children.mp mem
    obtain ⟨m, held, -⟩ := inv.proxySocket n.id n i (Forest.node?_id listed) child
    exact fresh (Forest.mem_ids_iff.mpr ⟨m, held⟩)
  have children : (T.sockets.add ⟨i, none, .incoming accepted⟩).children i = [] := by
    rw [Forest.children_add_of_ne free (by simp), none_]
  refine view_eq_some_iff.mpr ⟨_, Forest.node?_add_self free, rfl, rfl, ?_⟩
  rw [clientOf, Forest.values, children]
  rfl

theorem view_of_not_concerns (inv : T.Inv) (stepped : T.step t e = some T')
    (other : T.Concerns i e = false) : T'.view i = T.view i := by
  have parted := inv.step_part stepped i
  rw [other, if_neg Bool.false_ne_true] at parted
  rw [← view_part, parted, view_part]

theorem upstreamProxy_of_socket (inv : T.Inv) {e : SocketEvent}
    (stepped : T.step t (.socket x e) = some T') : T'.upstreamProxy = T.upstreamProxy := by
  obtain ⟨n, own, -⟩ := step_socket_eq_some.mp stepped
  have other : T.Concerns (n.owner + 1) (.socket x e) = false := by
    rw [Concerns, ownerOf_eq_some_iff.mpr ⟨n, own, rfl⟩]
    simp
  have parted := inv.step_part stepped (n.owner + 1)
  rw [other, if_neg Bool.false_ne_true] at parted
  have same := congrArg ObjectTree.upstreamProxy parted
  exact same

theorem proxy_put (env : T'.upstreamProxy = T.upstreamProxy)
    (others : ∀ j ≠ i, T'.view j = T.view j) : T.proxy.put i (T'.view i) = T'.proxy := by
  have members : Function.update T.view i (T'.view i) = T'.view := by
    funext j
    by_cases here : j = i
    · rw [here, Function.update_self]
    · rw [Function.update_of_ne here, others j here]
  rw [proxy, Family.put, members, proxy, env]

theorem step_member {a : ConnectionEvent}
    (moved : connectionStep t (T.view i) (T.upstreamProxy, a) = some (T'.view i))
    (env : T'.upstreamProxy = T.upstreamProxy) (others : ∀ j ≠ i, T'.view j = T.view j) :
    HttpProxy.step t T.proxy (.member i a) = some T'.proxy := by
  have moved' : connectionStep t (T.proxy.member i) (T.proxy.env, a) = some (T'.view i) := moved
  rw [HttpProxy.step, Family.step, moved', Option.map_some, proxy_put env others]

/-- One event of the tree is one of the proxy. -/
theorem step_proxy (inv : T.Inv) (stepped : T.step t e = some T') :
    ∃ a, T.proxyEvent e = some a ∧ HttpProxy.step t T.proxy a = some T'.proxy := by
  cases e with
  | httpListen l =>
      refine ⟨_, rfl, ?_⟩
      rw [← Option.some.inj stepped]
      rfl
  | incomingConnection new accepted =>
      have others : ∀ j ≠ new, T'.view j = T.view j := by
        intro j other
        exact view_of_not_concerns inv stepped (decide_eq_false other.symm)
      rw [step] at stepped
      split at stepped
      · exact absurd stepped (by simp)
      next fresh =>
        have same := Option.some.inj stepped
        refine ⟨_, rfl, step_member ?_ (same ▸ rfl) others⟩
        rw [view_of_not_mem fresh, ← same, view_incomingConnection inv fresh]
        rfl
  | socket x e =>
      obtain ⟨n, own, live, can, fresh, happened⟩ := step_socket_eq_some.mp stepped
      have env := upstreamProxy_of_socket inv stepped
      have others : ∀ j ≠ n.owner, T'.view j = T.view j := by
        intro j other
        apply view_of_not_concerns inv stepped
        rw [Concerns, ownerOf_eq_some_iff.mpr ⟨n, own, rfl⟩]
        simpa using other.symm
      cases child : n.parent with
      | none =>
          obtain ⟨a, event, moved⟩ := view_clientEvent (t := t) inv own child live can fresh
          have owner : n.owner = x := by
            rw [Node.owner, child, Option.getD_none, (Forest.node?_eq_some_iff.mp own).2]
          rw [happened] at moved
          refine ⟨.member x a, ?_, step_member moved env (owner ▸ others)⟩
          simp only [proxyEvent, own, Option.bind_some, child, event, Option.map_some]
      | some i =>
          obtain ⟨m, held, ok⟩ := inv.proxySocket x n i own child
          have named : m.id = i := (Forest.node?_eq_some_iff.mp held).2
          subst named
          have liveClient : m.value.deleted = false := by
            by_contra gone
            rw [ok.deleted (by simpa using gone)] at live
            exact absurd live (by simp)
          have seen : T.view m.id = some (T.clientOf m) :=
            view_eq_some_iff.mpr ⟨m, held, ok.root, liveClient, rfl⟩
          have after := view_proxySocketEvent (t := t) inv own held child liveClient ok e
          have owner : n.owner = m.id := by rw [Node.owner, child, Option.getD_some]
          refine ⟨.member m.id (.client (.proxySocket (T.sockets.index m.id x) e.ofProxySocket)),
            ?_, step_member ?_ env (owner ▸ others)⟩
          · simp only [proxyEvent, own, Option.bind_some, child]
          · have any : (T.clientOf m).Can
                (.proxySocket (T.sockets.index m.id x) e.ofProxySocket) := trivial
            have possible : n.value.toProxySocket.deleted = false ∧
                n.value.toProxySocket.Can e.ofProxySocket := ⟨live, can_ofProxySocket ok can⟩
            rw [seen, connectionStep, Client.step, if_pos any, Client.event,
              getElem?_children_view seen own child, Option.bind_some, if_pos possible,
              Option.map_some, ← after, happened]

def proxyEvents (t : QtText) (T : ObjectTree) (es : List TreeEvent) :
    List (HttpProxyEvent Pointer) :=
  (history (step t) T es).filterMap fun h => h.1.proxyEvent h.2

/-- A run of the tree is one of the proxy. -/
theorem run_proxy (inv : T.Inv) {es : List TreeEvent} (ran : run (step t) T es = some T') :
    run (HttpProxy.step t) T.proxy (proxyEvents t T es) = some T'.proxy := by
  induction es generalizing T with
  | nil =>
      rw [← Option.some.inj ran]
      rfl
  | cons e es ih =>
      obtain ⟨U, stepped, rest⟩ := exists_step_of_run_cons ran
      obtain ⟨a, event, moved⟩ := step_proxy inv stepped
      have events : proxyEvents t T (e :: es) = a :: proxyEvents t U es := by
        rw [proxyEvents, history_cons stepped]
        exact List.filterMap_cons_some event
      rw [events, run_cons moved]
      exact ih (inv_step inv stepped) rest

end Step

end ObjectTree

end QvPlugin.Socksify
