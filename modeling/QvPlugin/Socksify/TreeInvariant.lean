import QvPlugin.Socksify.ClientInvariant
import QvPlugin.Socksify.ObjectTree

/-!
What holds of the object tree after every event: a socket's parent is a client, each socket has the
connections of its kind, and a stream is one between a client and a child of it.
-/

set_option autoImplicit false
set_option relaxedAutoImplicit false

namespace QvPlugin.Socksify

open Lib Qt

/-- What a client's socket can have connected, given the parent of each object. -/
structure ClientOk (parent : Pointer → Option Pointer) (n : Node Pointer QTcpSocket) : Prop where
  connected : n.value.connected = []
  state : n.value.socket.state ≠ .connecting
  errorOccurred : n.value.errorOccurred ≠ 0
  readyRead : n.value.readyRead = [.onSocketReadyRead] ∨
    ∀ slot ∈ n.value.readyRead, ∃ y, slot = .onSocketAReadyRead n.id y ∧ parent y = some n.id

/-- What an upstream socket `n` of the client `m` can have connected. -/
structure ProxySocketOk (m n : Node Pointer QTcpSocket) : Prop where
  root : m.parent = none
  errorOccurred : n.value.errorOccurred = 0
  state : n.value.socket.state ≠ .closing
  deleted : m.value.deleted = true → n.value.deleted = true
  connected : n.value.connected = [.onProxySocketConnected] ∧
      n.value.readyRead = [.onProxySocketReadyRead] ∨
    n.value.connected = [.onProxySocketConnectedHttps] ∧
      (ReadyReadSlot.onSocketAReadyRead m.id n.id ∉ m.value.readyRead ∧ n.value.readyRead = [] ∨
        ReadyReadSlot.onSocketAReadyRead m.id n.id ∈ m.value.readyRead ∧
          n.value.readyRead = [.onSocketBReadyRead m.id n.id] ∧
          n.value.socket.state ≠ .connecting)

theorem ProxySocketOk.opensNone {m n : Node Pointer QTcpSocket} (ok : ProxySocketOk m n) :
    ReadyReadSlot.onSocketReadyRead ∉ n.value.readyRead := by
  rcases ok.connected with plain | ⟨-, fresh | stream⟩
  · simp [plain.2]
  · simp [fresh.2]
  · simp [stream.2.1]

namespace ObjectTree

structure Inv (T : ObjectTree) : Prop where
  client : ∀ x n, T.sockets.node? x = some n → n.parent = none → ClientOk T.parent n
  proxySocket : ∀ x n i, T.sockets.node? x = some n → n.parent = some i →
    ∃ m, T.sockets.node? i = some m ∧ ProxySocketOk m n

/-- What an event that makes no connection and ends none leaves of a socket. -/
structure Keeps (n : Node Pointer QTcpSocket) (v : QTcpSocket) : Prop where
  connected : v.connected = n.value.connected
  readyRead : v.readyRead = n.value.readyRead
  errorOccurred : v.errorOccurred = 0 ↔ n.value.errorOccurred = 0
  deleted : v.deleted = n.value.deleted
  connecting : v.socket.state = .connecting → n.value.socket.state = .connecting
  closing : v.socket.state = .closing → n.value.socket.state = .closing ∨ n.parent = none

theorem Keeps.refl (n : Node Pointer QTcpSocket) : Keeps n n.value :=
  ⟨rfl, rfl, Iff.rfl, rfl, id, Or.inl⟩

section Parent

variable {T : ObjectTree} {x y i : Pointer}

theorem parent_eq_some_iff :
    T.parent y = some i ↔ ∃ n, T.sockets.node? y = some n ∧ n.parent = some i :=
  Option.bind_eq_some_iff

theorem parent_update (T : ObjectTree) (f : Node Pointer QTcpSocket → QTcpSocket) :
    parent { T with sockets := T.sockets.update f } = T.parent := by
  funext y
  rw [parent, parent, Forest.node?_update]
  cases T.sockets.node? y with
  | none => rfl
  | some n => rfl

theorem id_ne_of_root {m n : Node Pointer QTcpSocket} (held : T.sockets.node? x = some m)
    (root : m.parent = none) (own : T.sockets.node? y = some n) (child : n.parent = some i) :
    m.id ≠ n.id := by
  intro same
  rw [Forest.eq_of_id_eq held own same, child] at root
  exact absurd root (by simp)

theorem ne_of_root {m : Node Pointer QTcpSocket} (held : T.sockets.node? x = some m)
    (root : m.parent = none) (child : T.parent y = some i) : x ≠ y := by
  obtain ⟨n, own, below⟩ := parent_eq_some_iff.mp child
  rw [← (Forest.node?_eq_some_iff.mp held).2, ← (Forest.node?_eq_some_iff.mp own).2]
  exact id_ne_of_root held root own below

theorem parent_change (T : ObjectTree) (x : Pointer) (f : QTcpSocket → QTcpSocket) :
    (T.change x f).parent = T.parent := parent_update T _

end Parent

section Keep

variable {T : ObjectTree} {x : Pointer}

theorem Inv.update (inv : T.Inv) {f : Node Pointer QTcpSocket → QTcpSocket}
    (client : ∀ x n, T.sockets.node? x = some n → n.parent = none → ClientOk T.parent n →
      ClientOk T.parent { n with value := f n })
    (proxySocket : ∀ x m n, T.sockets.node? m.id = some m → T.sockets.node? x = some n →
      n.parent = some m.id → ProxySocketOk m n →
      ProxySocketOk { m with value := f m } { n with value := f n }) :
    Inv { T with sockets := T.sockets.update f } := by
  constructor
  · intro x n' found root
    rw [Forest.node?_update, Option.map_eq_some_iff] at found
    obtain ⟨n, own, rfl⟩ := found
    rw [parent_update]
    exact client x n own root (inv.client x n own root)
  · intro x n' i found child
    rw [Forest.node?_update, Option.map_eq_some_iff] at found
    obtain ⟨n, own, rfl⟩ := found
    obtain ⟨m, held, ok⟩ := inv.proxySocket x n i own child
    have same : m.id = i := (Forest.node?_eq_some_iff.mp held).2
    subst same
    refine ⟨{ m with value := f m }, ?_, proxySocket x m n held own child ok⟩
    rw [Forest.node?_update, held, Option.map_some]

theorem Inv.update_of_keeps (inv : T.Inv) {f : Node Pointer QTcpSocket → QTcpSocket}
    (keeps : ∀ x n, T.sockets.node? x = some n → Keeps n (f n)) :
    Inv { T with sockets := T.sockets.update f } := by
  apply inv.update
  · intro x n own root ok
    have kept := keeps x n own
    refine ⟨kept.connected.trans ok.connected, mt kept.connecting ok.state,
      mt kept.errorOccurred.mp ok.errorOccurred, ?_⟩
    simp only [kept.readyRead]
    exact ok.readyRead
  · intro x m n held own child ok
    have kept := keeps x n own
    have keptParent := keeps m.id m held
    refine ⟨ok.root, kept.errorOccurred.mpr ok.errorOccurred, fun closing => ?_, ?_, ?_⟩
    · rcases kept.closing closing with before | root
      · exact ok.state before
      · exact absurd (child.symm.trans root) (by simp)
    · simp only [kept.deleted, keptParent.deleted]
      exact ok.deleted
    · simp only [kept.connected, kept.readyRead, keptParent.readyRead]
      refine ok.connected.imp_right fun tunnel => ⟨tunnel.1, tunnel.2.imp_right fun stream => ?_⟩
      exact ⟨stream.1, stream.2.1, mt kept.connecting stream.2.2⟩

theorem Inv.change (inv : T.Inv) {f : QTcpSocket → QTcpSocket}
    (keeps : ∀ n, T.sockets.node? x = some n → Keeps n (f n.value)) : (T.change x f).Inv := by
  apply inv.update_of_keeps
  intro y n own
  have same : n.id = y := (Forest.node?_eq_some_iff.mp own).2
  by_cases here : n.id = x
  · rw [if_pos here]
    exact keeps n (by rw [← here, same, own])
  · rw [if_neg here]
    exact Keeps.refl n

theorem Inv.call (inv : T.Inv) {f : QAbstractSocket → QAbstractSocket}
    (connecting : ∀ n, T.sockets.node? x = some n → (f n.value.socket).state = .connecting →
      n.value.socket.state = .connecting)
    (closing : ∀ n, T.sockets.node? x = some n → (f n.value.socket).state = .closing →
      n.value.socket.state = .closing ∨ n.parent = none) : (T.call x f).Inv :=
  inv.change fun n own => ⟨rfl, rfl, Iff.rfl, rfl, connecting n own, closing n own⟩

theorem Inv.call_of_state (inv : T.Inv) {f : QAbstractSocket → QAbstractSocket}
    (state : ∀ n, T.sockets.node? x = some n → (f n.value.socket).state = n.value.socket.state) :
    (T.call x f).Inv :=
  inv.call (fun n own => by rw [state n own]; exact id) fun n own => by
    rw [state n own]
    exact Or.inl

theorem Inv.streamed (inv : T.Inv) (m_as m_bs : Pointer) {slot : SocketStream → SocketStream}
    (state_m_as : ∀ s, (slot s).m_as.state = s.m_as.state)
    (state_m_bs : ∀ s, (slot s).m_bs.state = s.m_bs.state) : (T.streamed m_as m_bs slot).Inv := by
  rw [ObjectTree.streamed]
  cases heldA : T.sockets.node? m_as with
  | none => exact inv
  | some a =>
      cases heldB : T.sockets.node? m_bs with
      | none => exact inv
      | some b =>
          have first : (T.call m_as fun _ => (slot ⟨a.value.socket, b.value.socket⟩).m_as).Inv := by
            apply inv.call_of_state
            intro n own
            rw [state_m_as, ← Option.some.inj (heldA.symm.trans own)]
          apply first.call_of_state
          intro n own
          rw [state_m_bs]
          by_cases same : m_bs = m_as
          · subst same
            rw [ObjectTree.call, ObjectTree.change, Forest.node?_modify_self, heldA,
              Option.map_some] at own
            rw [← Option.some.inj own, ← Option.some.inj (heldA.symm.trans heldB)]
            exact (state_m_as ⟨a.value.socket, a.value.socket⟩).symm
          · rw [ObjectTree.call, ObjectTree.change, Forest.node?_modify_of_ne _ _ same, heldB] at own
            rw [← Option.some.inj own]

theorem Inv.readyReadSlot (inv : T.Inv) (t : QtText) (new sender : Pointer) {slot : ReadyReadSlot}
    (opensNone : slot ≠ .onSocketReadyRead) : (T.readyReadSlot t new sender slot).Inv := by
  cases slot with
  | onSocketReadyRead => exact absurd rfl opensNone
  | onProxySocketReadyRead =>
      simp only [ObjectTree.readyReadSlot, ObjectTree.onProxySocketReadyRead]
      split
      · refine Inv.call_of_state (Inv.call_of_state inv ?_) ?_
        · exact fun n _ => rfl
        · exact fun n _ => QAbstractSocket.state_write ..
      · exact inv
  | onSocketAReadyRead m_as m_bs =>
      exact inv.streamed m_as m_bs (fun s => (Client.pass_fixed s.m_as s.m_bs).1)
        fun s => (Client.pass_fixed s.m_as s.m_bs).2.1
  | onSocketBReadyRead m_as m_bs =>
      exact inv.streamed m_as m_bs (fun s => (Client.pass_fixed s.m_bs s.m_as).2.1)
        fun s => (Client.pass_fixed s.m_bs s.m_as).1

theorem Inv.foldl_readyReadSlot (inv : T.Inv) (t : QtText) (new sender : Pointer)
    {slots : List ReadyReadSlot} (opensNone : ReadyReadSlot.onSocketReadyRead ∉ slots) :
    (slots.foldl (ObjectTree.readyReadSlot t new sender) T).Inv := by
  induction slots generalizing T with
  | nil => exact inv
  | cons slot slots ih =>
      rw [List.mem_cons, not_or] at opensNone
      exact ih (inv.readyReadSlot t new sender (Ne.symm opensNone.1)) opensNone.2

end Keep

section Connections

variable {T : ObjectTree} {x i new : Pointer}

theorem parent_add {n : Node Pointer QTcpSocket} (fresh : n.id ∉ T.sockets.ids) (y : Pointer) :
    parent { T with sockets := T.sockets.add n } y = if y = n.id then n.parent else T.parent y := by
  by_cases here : y = n.id
  · rw [if_pos here, here, parent, Forest.node?_add_self fresh]
    rfl
  · rw [if_neg here, parent, Forest.node?_add_of_ne fresh here, parent]

theorem parent_of_not_mem (fresh : x ∉ T.sockets.ids) : T.parent x = none := by
  rw [parent, Forest.node?_eq_none_iff.mpr fresh]
  rfl

theorem Inv.clientOk_add (inv : T.Inv) {n m : Node Pointer QTcpSocket} (fresh : n.id ∉ T.sockets.ids)
    (own : T.sockets.node? x = some m) (root : m.parent = none) :
    ClientOk (parent { T with sockets := T.sockets.add n }) m := by
  have ok := inv.client x m own root
  refine ⟨ok.connected, ok.state, ok.errorOccurred, ok.readyRead.imp_right fun streams slot mem => ?_⟩
  obtain ⟨y, same, child⟩ := streams slot mem
  refine ⟨y, same, ?_⟩
  have other : y ≠ n.id := by
    rintro rfl
    rw [parent_of_not_mem fresh] at child
    exact absurd child (by simp)
  rw [parent_add fresh, if_neg other, child]

theorem Inv.add (inv : T.Inv) {n : Node Pointer QTcpSocket} (fresh : n.id ∉ T.sockets.ids)
    (client : n.parent = none → ClientOk (parent { T with sockets := T.sockets.add n }) n)
    (proxySocket : ∀ i, n.parent = some i →
      ∃ m, T.sockets.node? i = some m ∧ ProxySocketOk m n) :
    Inv { T with sockets := T.sockets.add n } := by
  constructor
  · intro x k found root
    by_cases here : x = n.id
    · subst here
      cases Option.some.inj ((Forest.node?_add_self fresh).symm.trans found)
      exact client root
    · rw [Forest.node?_add_of_ne fresh here] at found
      exact inv.clientOk_add fresh found root
  · intro x k i found child
    have ofOld : (∃ m, T.sockets.node? i = some m ∧ ProxySocketOk m k) →
        ∃ m, (T.sockets.add n).node? i = some m ∧ ProxySocketOk m k := by
      rintro ⟨m, held, ok⟩
      exact ⟨m, Forest.node?_add_of_some fresh held, ok⟩
    apply ofOld
    by_cases here : x = n.id
    · subst here
      cases Option.some.inj ((Forest.node?_add_self fresh).symm.trans found)
      exact proxySocket i child
    · rw [Forest.node?_add_of_ne fresh here] at found
      exact inv.proxySocket x k i found child

theorem Inv.incomingConnection (inv : T.Inv) (fresh : new ∉ T.sockets.ids) (accepted : Bool) :
    Inv { T with sockets := T.sockets.add ⟨new, none, .incoming accepted⟩ } := by
  refine inv.add fresh (fun _ => ⟨rfl, ?_, Nat.one_ne_zero, Or.inl rfl⟩) fun i child => ?_
  · cases accepted <;> simp [QTcpSocket.incoming]
  · exact absurd child (by simp)

inductive Opened (up : QNetworkProxy) : QTcpSocket → Prop where
  | plain (host : QString) (port : UInt16) (reqData : QByteArray) :
      Opened up (.plain up host port reqData)
  | tunnel (host : QString) (port : UInt16) : Opened up (.tunnel up host port)

theorem Inv.proxySocketOk_opened (inv : T.Inv) (fresh : new ∉ T.sockets.ids)
    {m : Node Pointer QTcpSocket} (held : T.sockets.node? m.id = some m) (root : m.parent = none)
    (live : m.value.deleted = false) {up : QNetworkProxy} {v : QTcpSocket} (opened : Opened up v) :
    ProxySocketOk m ⟨new, some m.id, v⟩ := by
  have notGone : m.value.deleted = true → v.deleted = true := fun gone =>
    absurd (live.symm.trans gone) (by simp)
  cases opened with
  | plain host port reqData =>
      exact ⟨root, rfl, SocketState.noConfusion, notGone, Or.inl ⟨rfl, rfl⟩⟩
  | tunnel host port =>
      refine ⟨root, rfl, SocketState.noConfusion, notGone, Or.inr ⟨rfl, Or.inl ⟨fun mem => ?_, rfl⟩⟩⟩
      rcases (inv.client m.id m held root).readyRead with http | streams
      · rw [http] at mem
        exact absurd mem (by simp)
      · obtain ⟨y, slot, child⟩ := streams _ mem
        obtain ⟨-, rfl⟩ := ReadyReadSlot.onSocketAReadyRead.inj slot
        rw [parent_of_not_mem fresh] at child
        exact absurd child (by simp)

theorem Inv.connectToHost (inv : T.Inv) (fresh : new ∉ T.sockets.ids)
    {m : Node Pointer QTcpSocket} (held : T.sockets.node? i = some m) (root : m.parent = none)
    (live : m.value.deleted = false) {up : QNetworkProxy} {v : QTcpSocket} (opened : Opened up v) :
    (T.connectToHost new i v).Inv := by
  have named : m.id = i := (Forest.node?_eq_some_iff.mp held).2
  subst named
  have added : Inv { T with sockets := T.sockets.add ⟨new, some m.id, v⟩ } := by
    refine inv.add fresh (fun root => absurd root (by simp)) fun i child => ?_
    cases Option.some.inj child
    exact ⟨m, held, inv.proxySocketOk_opened fresh held root live opened⟩
  apply added.change
  intro n own
  cases Option.some.inj ((Forest.node?_add_of_some fresh held).symm.trans own)
  have connected := (inv.client m.id m held root).errorOccurred
  exact ⟨rfl, rfl, ⟨fun zero => absurd zero (Nat.succ_ne_zero _), fun zero => absurd zero connected⟩,
    rfl, id, Or.inl⟩

/-- What `onProxySocketConnectedHttps` makes of a socket, for the tunnel `x` of the client `i`. -/
def tunnelled (i x : Pointer) (k : Node Pointer QTcpSocket) : QTcpSocket :=
  if k.id = i then
    { k.value with
      socket := k.value.socket.write httpsHeader
      readyRead := k.value.readyRead.filter (· ≠ .onSocketReadyRead) ++ [.onSocketAReadyRead i x] }
  else if k.id = x then
    { k.value with readyRead := k.value.readyRead ++ [.onSocketBReadyRead i x] }
  else k.value

theorem onProxySocketConnectedHttps_eq {n : Node Pointer QTcpSocket}
    (own : T.sockets.node? x = some n) (child : n.parent = some i) (other : x ≠ i) :
    T.onProxySocketConnectedHttps x =
      { T with sockets := T.sockets.update (tunnelled i x) } := by
  have parent : T.parent x = some i := parent_eq_some_iff.mpr ⟨n, own, child⟩
  simp only [onProxySocketConnectedHttps, parent, newSocketStream, call, change, Forest.modify,
    Forest.update_update]
  congr 1
  apply Forest.update_congr
  intro k _
  by_cases client : k.id = i
  · have apart : ¬ i = x := fun same => other same.symm
    simp [tunnelled, client, apart]
  · simp [tunnelled, client]

section Tunnelled

variable {k : Node Pointer QTcpSocket}

theorem tunnelled_client (x : Pointer) (k : Node Pointer QTcpSocket) :
    tunnelled k.id x k =
      { k.value with
        socket := k.value.socket.write httpsHeader
        readyRead := k.value.readyRead.filter (· ≠ .onSocketReadyRead) ++
          [.onSocketAReadyRead k.id x] } :=
  if_pos rfl

theorem tunnelled_child (other : k.id ≠ i) :
    tunnelled i k.id k =
      { k.value with readyRead := k.value.readyRead ++ [.onSocketBReadyRead i k.id] } :=
  (if_neg other).trans (if_pos rfl)

theorem tunnelled_of_ne (other : k.id ≠ i) (other' : k.id ≠ x) : tunnelled i x k = k.value :=
  (if_neg other).trans (if_neg other')

/-- The client gets the slot of the new stream in the place of its first one. -/
theorem clientOk_tunnelled {m : Node Pointer QTcpSocket} (ok : ClientOk T.parent m)
    (child : T.parent x = some m.id) :
    ClientOk T.parent { m with value := tunnelled m.id x m } := by
  rw [tunnelled_client]
  refine ⟨ok.connected, ?_, ok.errorOccurred, Or.inr fun slot mem => ?_⟩
  · rw [QAbstractSocket.state_write]
    exact ok.state
  · rw [List.mem_append, List.mem_filter, List.mem_singleton] at mem
    rcases mem with ⟨before, notHttp⟩ | rfl
    · rcases ok.readyRead with http | streams
      · rw [http, List.mem_singleton] at before
        exact absurd before (by simpa using notHttp)
      · exact streams slot before
    · exact ⟨x, rfl, child⟩

/-- So does the tunnel, which had none. -/
theorem proxySocketOk_tunnelled {m n : Node Pointer QTcpSocket} (ok : ProxySocketOk m n)
    (other : n.id ≠ m.id) (tunnel : n.value.connected = [.onProxySocketConnectedHttps])
    (connected : n.value.socket.state ≠ .connecting)
    (noStream : ReadyReadSlot.onSocketAReadyRead m.id n.id ∉ m.value.readyRead) :
    ProxySocketOk { m with value := tunnelled m.id n.id m }
      { n with value := tunnelled m.id n.id n } := by
  have nothing : n.value.readyRead = [] := by
    rcases ok.connected with plain | ⟨-, fresh | stream⟩
    · exact absurd (plain.1.symm.trans tunnel) (by simp)
    · exact fresh.2
    · exact absurd stream.1 noStream
  rw [tunnelled_client, tunnelled_child other, nothing]
  exact ⟨ok.root, ok.errorOccurred, ok.state, ok.deleted, Or.inr ⟨tunnel, Or.inr
    ⟨List.mem_append_right _ List.mem_cons_self, rfl, connected⟩⟩⟩

/-- The other upstream sockets of the client keep their streams. -/
theorem proxySocketOk_tunnelled_of_ne {m n : Node Pointer QTcpSocket} (ok : ProxySocketOk m n)
    (other : n.id ≠ m.id) (apart : n.id ≠ x) :
    ProxySocketOk { m with value := tunnelled m.id x m }
      { n with value := tunnelled m.id x n } := by
  have stream : ReadyReadSlot.onSocketAReadyRead m.id n.id ∈
      m.value.readyRead.filter (· ≠ .onSocketReadyRead) ++ [.onSocketAReadyRead m.id x] ↔
        ReadyReadSlot.onSocketAReadyRead m.id n.id ∈ m.value.readyRead := by
    simp [apart]
  rw [tunnelled_client, tunnelled_of_ne other apart]
  refine ⟨ok.root, ok.errorOccurred, ok.state, ok.deleted, ?_⟩
  rw [stream]
  exact ok.connected

end Tunnelled

theorem Inv.onProxySocketConnectedHttps (inv : T.Inv) {m n : Node Pointer QTcpSocket}
    (held : T.sockets.node? m.id = some m) (own : T.sockets.node? n.id = some n)
    (child : n.parent = some m.id) (tunnel : n.value.connected = [.onProxySocketConnectedHttps])
    (connected : n.value.socket.state ≠ .connecting)
    (noStream : ReadyReadSlot.onSocketAReadyRead m.id n.id ∉ m.value.readyRead) :
    (T.onProxySocketConnectedHttps n.id).Inv := by
  obtain ⟨m', held', ok⟩ := inv.proxySocket n.id n m.id own child
  cases Option.some.inj (held'.symm.trans held)
  have other : n.id ≠ m.id := (id_ne_of_root held ok.root own child).symm
  rw [onProxySocketConnectedHttps_eq own child other]
  apply inv.update
  · intro y k there root okClient
    by_cases here : k.id = m.id
    · cases Forest.eq_of_id_eq there held here
      exact clientOk_tunnelled okClient (parent_eq_some_iff.mpr ⟨n, own, child⟩)
    · rw [tunnelled_of_ne here (id_ne_of_root there root own child)]
      exact okClient
  · intro y k l heldK there childL okL
    have notClient : l.id ≠ k.id := (id_ne_of_root heldK okL.root there childL).symm
    by_cases sameClient : k.id = m.id
    · cases Forest.eq_of_id_eq heldK held sameClient
      by_cases here : l.id = n.id
      · cases Forest.eq_of_id_eq there own here
        exact proxySocketOk_tunnelled okL notClient tunnel connected noStream
      · exact proxySocketOk_tunnelled_of_ne okL notClient here
    · have notTunnel : l.id ≠ n.id := by
        intro here
        rw [Forest.eq_of_id_eq there own here, child] at childL
        exact sameClient (Option.some.inj childL).symm
      rw [tunnelled_of_ne sameClient (id_ne_of_root heldK okL.root own child),
        tunnelled_of_ne (id_ne_of_root held ok.root there childL).symm notTunnel]
      exact okL

theorem Inv.delete (inv : T.Inv) (x : Pointer) : (T.delete x).Inv := by
  apply inv.update
  · intro y n own root ok
    refine ⟨ok.connected, ok.state, ok.errorOccurred, ?_⟩
    rcases ok.readyRead with http | streams
    · left
      simp [http, ReadyReadSlot.keeps]
    · exact Or.inr fun slot mem => streams slot (List.mem_filter.mp mem).1
  · intro y m n held own child ok
    refine ⟨ok.root, ok.errorOccurred, ok.state, fun gone => ?_, ?_⟩
    · simp only [ok.root, Bool.or_eq_true, decide_eq_true_eq, reduceCtorEq, or_false] at gone
      rcases gone with before | here
      · simp [ok.deleted before]
      · simp [child, here]
    · rcases ok.connected with plain | ⟨tunnel, none | stream⟩
      · exact Or.inl ⟨plain.1, by simp [plain.2, ReadyReadSlot.keeps]⟩
      · exact Or.inr ⟨tunnel, Or.inl ⟨fun mem => none.1 (List.mem_filter.mp mem).1,
          by simp [none.2]⟩⟩
      · by_cases kept : m.id = x ∨ n.id = x
        · refine Or.inr ⟨tunnel, Or.inl ⟨fun mem => ?_, ?_⟩⟩
          · have stays : ¬ (m.id = x ∨ n.id = x) := by
              simpa [ReadyReadSlot.keeps] using (List.mem_filter.mp mem).2
            exact stays kept
          · simpa [stream.2.1, ReadyReadSlot.keeps] using kept
        · refine Or.inr ⟨tunnel, Or.inr ⟨?_, ?_, stream.2.2⟩⟩
          · rw [List.mem_filter]
            exact ⟨stream.1, by simpa [ReadyReadSlot.keeps] using kept⟩
          · simpa [stream.2.1, ReadyReadSlot.keeps] using kept

end Connections

section Step

variable {t : QtText} {T T' : ObjectTree}

inductive Asks (t : QtText) (T : ObjectTree) (new i : Pointer) : ObjectTree → Prop where
  | invalid (asked : request t (T.unread i) = .invalid) :
      Asks t T new i ((T.call i .readAll).call i .disconnectFromHost)
  | reused {host : QString} {port : UInt16} {reqData : QByteArray} {y : Pointer}
      (asked : request t (T.unread i) = .plain host port reqData)
      (found : (T.call i .readAll).findChild i (key host port) = some y) :
      Asks t T new i ((T.call i .readAll).call y (·.write reqData))
  | plain {host : QString} {port : UInt16} {reqData : QByteArray}
      (asked : request t (T.unread i) = .plain host port reqData)
      (missing : (T.call i .readAll).findChild i (key host port) = none) :
      Asks t T new i
        ((T.call i .readAll).connectToHost new i (.plain T.upstreamProxy host port reqData))
  | tunnel {host : QString} {port : UInt16} (asked : request t (T.unread i) = .connect host port) :
      Asks t T new i ((T.call i .readAll).connectToHost new i (.tunnel T.upstreamProxy host port))

theorem asks_onSocketReadyRead (t : QtText) (T : ObjectTree) (new i : Pointer) :
    Asks t T new i (T.onSocketReadyRead i t new) := by
  cases asked : request t (T.unread i) with
  | invalid =>
      simp only [onSocketReadyRead, asked]
      exact .invalid asked
  | plain host port reqData =>
      cases found : (T.call i .readAll).findChild i (key host port) with
      | none =>
          simp only [onSocketReadyRead, asked, found]
          exact .plain asked found
      | some y =>
          simp only [onSocketReadyRead, asked, found]
          exact .reused asked found
  | connect host port =>
      simp only [onSocketReadyRead, asked]
      exact .tunnel asked

theorem Inv.onSocketReadyRead (inv : T.Inv) {new i : Pointer} (fresh : new ∉ T.sockets.ids)
    {m : Node Pointer QTcpSocket} (held : T.sockets.node? i = some m) (root : m.parent = none)
    (live : m.value.deleted = false) : (T.onSocketReadyRead i t new).Inv := by
  have read : (T.call i .readAll).Inv := inv.call_of_state fun n _ => rfl
  have there : (T.call i .readAll).sockets.node? i =
      some { m with value := { m.value with socket := m.value.socket.readAll } } := by
    rw [ObjectTree.call, ObjectTree.change, Forest.node?_modify_self, held, Option.map_some]
  have fresh' : new ∉ (T.call i .readAll).sockets.ids := by
    rw [ObjectTree.call, ObjectTree.change, Forest.ids_modify]
    exact fresh
  have asks := asks_onSocketReadyRead t T new i
  generalize T.onSocketReadyRead i t new = T' at asks ⊢
  cases asks with
  | invalid =>
      refine read.call (fun n _ connecting => ?_) fun n own _ => ?_
      · rw [QAbstractSocket.disconnectFromHost] at connecting
        split at connecting
        · exact connecting
        · exact absurd connecting (by simp)
      · rw [there] at own
        exact Or.inr (Option.some.inj own ▸ root)
  | reused => exact read.call_of_state fun n _ => QAbstractSocket.state_write ..
  | plain => exact read.connectToHost fresh' there root live (.plain ..)
  | tunnel => exact read.connectToHost fresh' there root live (.tunnel ..)

theorem Inv.onSocketErrors (inv : T.Inv) (x : Pointer) (l : List Unit) :
    (l.foldl (fun T _ => T.onSocketError x) T).Inv := by
  induction l generalizing T with
  | nil => exact inv
  | cons _ l ih => exact ih (inv.call_of_state fun _ _ => rfl)

theorem step_socket_eq_some {x : Pointer} {e : SocketEvent} :
    T.step t (.socket x e) = some T' ↔
      ∃ n, T.sockets.node? x = some n ∧ n.value.deleted = false ∧ n.value.Can e ∧
        (∀ new ∈ e.new, new ∉ T.sockets.ids) ∧ T.event t x n.value e = T' := by
  rw [step, Option.bind_eq_some_iff]
  apply exists_congr
  intro n
  by_cases can : n.value.deleted = false ∧ n.value.Can e ∧ ∀ new ∈ e.new, new ∉ T.sockets.ids
  · rw [if_pos can, Option.some.injEq]
    tauto
  · rw [if_neg can]
    constructor
    · rintro ⟨-, ⟨⟩⟩
    · rintro ⟨-, live, state, fresh, -⟩
      exact absurd ⟨live, state, fresh⟩ can

/-- A connection is made. -/
theorem Inv.connected (inv : T.Inv) {n : Node Pointer QTcpSocket}
    (own : T.sockets.node? n.id = some n) (connecting : n.value.socket.state = .connecting) :
    (n.value.connected.foldl (ObjectTree.connectedSlot n.id)
      (T.call n.id fun s => { s with state := .connected })).Inv := by
  let v : QTcpSocket := { n.value with socket := { n.value.socket with state := .connected } }
  have there : (T.call n.id fun s => { s with state := .connected }).sockets.node? n.id =
      some { n with value := v } := by
    rw [ObjectTree.call, ObjectTree.change, Forest.node?_modify_self, own, Option.map_some]
  have inv' : (T.call n.id fun s => { s with state := .connected }).Inv :=
    inv.call (fun _ _ same => SocketState.noConfusion same)
      fun _ _ same => SocketState.noConfusion same
  cases child : n.parent with
  | none => exact absurd connecting (inv.client n.id n own child).state
  | some i =>
      obtain ⟨m, held, ok⟩ := inv.proxySocket n.id n i own child
      rcases ok.connected with plain | tunnel
      · rw [plain.1]
        exact inv'.change fun _ _ => ⟨rfl, rfl, Iff.rfl, rfl,
          (QAbstractSocket.state_write ..).symm.trans,
          fun closing => Or.inl ((QAbstractSocket.state_write ..).symm.trans closing)⟩
      · have named : m.id = i := (Forest.node?_eq_some_iff.mp held).2
        subst named
        have kept : (T.call n.id fun s => { s with state := .connected }).sockets.node? m.id =
            some m := by
          rw [ObjectTree.call, ObjectTree.change,
            Forest.node?_modify_of_ne _ _ (id_ne_of_root held ok.root own child), held]
        have noStream : ReadyReadSlot.onSocketAReadyRead m.id n.id ∉ m.value.readyRead := by
          rcases tunnel.2 with fresh | stream
          · exact fresh.1
          · exact absurd connecting stream.2.2
        have tunnelled := inv'.onProxySocketConnectedHttps (n := { n with value := v }) kept there
          child tunnel.1 (fun same => SocketState.noConfusion same) noStream
        rw [tunnel.1]
        exact tunnelled

/-- Data is read. -/
theorem Inv.readyRead (inv : T.Inv) {n : Node Pointer QTcpSocket} {new : Pointer}
    (own : T.sockets.node? n.id = some n) (live : n.value.deleted = false)
    (fresh : new ∉ T.sockets.ids) :
    (n.value.readyRead.foldl (ObjectTree.readyReadSlot t new n.id) T).Inv := by
  cases child : n.parent with
  | none =>
      rcases (inv.client n.id n own child).readyRead with http | streams
      · rw [http]
        exact inv.onSocketReadyRead fresh own child live
      · apply inv.foldl_readyReadSlot
        intro mem
        obtain ⟨y, slot, -⟩ := streams _ mem
        exact absurd slot (by simp)
  | some i =>
      obtain ⟨m, -, ok⟩ := inv.proxySocket n.id n i own child
      exact inv.foldl_readyReadSlot t new n.id ok.opensNone

theorem Inv.event (inv : T.Inv) {x : Pointer} {n : Node Pointer QTcpSocket} {e : SocketEvent}
    (own : T.sockets.node? x = some n) (live : n.value.deleted = false) (can : n.value.Can e)
    (fresh : ∀ new ∈ e.new, new ∉ T.sockets.ids) : (T.event t x n.value e).Inv := by
  have named : n.id = x := (Forest.node?_eq_some_iff.mp own).2
  subst named
  cases e with
  | connected => exact inv.connected own can
  | errorOccurred =>
      simp only [ObjectTree.event]
      split
      · exact Inv.onSocketErrors (inv.call (fun _ _ same => SocketState.noConfusion same)
          fun _ _ same => SocketState.noConfusion same) n.id _
      · exact inv.onSocketErrors n.id _
  | receive data => exact inv.call_of_state (f := (·.receive data)) fun _ _ => rfl
  | readyRead new => exact inv.readyRead own live (fresh new rfl)
  | disconnected =>
      exact inv.call (f := .disconnected) (fun _ _ same => SocketState.noConfusion same)
        fun _ _ same => SocketState.noConfusion same
  | deferredDelete => exact inv.delete n.id

/-- Every event keeps the invariant. -/
theorem inv_step (inv : T.Inv) {e : TreeEvent} (stepped : T.step t e = some T') : T'.Inv := by
  cases e with
  | httpListen l =>
      rw [← Option.some.inj stepped]
      exact ⟨inv.client, inv.proxySocket⟩
  | incomingConnection new accepted =>
      rw [step] at stepped
      split at stepped
      · exact absurd stepped (by simp)
      next fresh =>
        rw [← Option.some.inj stepped]
        exact inv.incomingConnection fresh accepted
  | socket x e =>
      obtain ⟨n, own, live, can, fresh, rfl⟩ := step_socket_eq_some.mp stepped
      exact inv.event own live can fresh

theorem inv_start (up : QNetworkProxy) : (start up).Inv :=
  ⟨fun _ _ found => (nomatch found), fun _ _ _ found => (nomatch found)⟩

end Step

end ObjectTree

end QvPlugin.Socksify
