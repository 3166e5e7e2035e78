import QvPlugin.Socksify.TreeParts

/-!
Each client of the object tree as a `Client`, with its children by their positions, and what the
slots make of it.
-/

set_option autoImplicit false
set_option relaxedAutoImplicit false

namespace QvPlugin.Socksify

open Lib Qt

def QTcpSocket.toProxySocket (v : QTcpSocket) : ProxySocket where
  socket := v.socket
  objectName := v.objectName
  reqData := v.reqData
  https := v.connected = [.onProxySocketConnectedHttps]
  host := v.host
  port := v.port
  proxy := v.proxy
  deleted := v.deleted

namespace ObjectTree

/-- A slot of the client at `i`; the other socket of a stream is named by its position. -/
def readSlot (T : ObjectTree) (i : Pointer) : ReadyReadSlot → Option ReadSlot
  | .onSocketReadyRead => some .onSocketReadyRead
  | .onSocketAReadyRead _ m_bs => some (.stream (T.sockets.index i m_bs))
  | _ => none

def clientOf (T : ObjectTree) (n : Node Pointer QTcpSocket) : Client where
  socket := n.value.socket
  readyRead := n.value.readyRead.filterMap (T.readSlot n.id)
  children := (T.sockets.values n.id).map QTcpSocket.toProxySocket

/-- The client at `i`, while there is one. -/
def view (T : ObjectTree) (i : Pointer) : Option Client :=
  (T.sockets.node? i).bind fun n =>
    if n.parent = none ∧ n.value.deleted = false then some (T.clientOf n) else none

section View

variable {T : ObjectTree} {i y : Pointer} {c : Client}

theorem view_eq_some_iff : T.view i = some c ↔
    ∃ n, T.sockets.node? i = some n ∧ n.parent = none ∧ n.value.deleted = false ∧
      T.clientOf n = c := by
  rw [view, Option.bind_eq_some_iff]
  apply exists_congr
  intro n
  by_cases live : n.parent = none ∧ n.value.deleted = false
  · rw [if_pos live, Option.some.injEq]
    tauto
  · rw [if_neg live]
    constructor
    · rintro ⟨-, ⟨⟩⟩
    · rintro ⟨-, root, notDeleted, -⟩
      exact absurd ⟨root, notDeleted⟩ live

theorem view_part (T : ObjectTree) (i : Pointer) : (T.part i).view i = T.view i := by
  have children : (T.part i).sockets.children i = T.sockets.children i :=
    T.sockets.children_part_self i
  ext c
  rw [view_eq_some_iff, view_eq_some_iff]
  apply exists_congr
  intro n
  have found : n.parent = none → ((T.part i).sockets.node? i = some n ↔
      T.sockets.node? i = some n) := by
    intro root
    rw [part, Forest.node?_part]
    refine ⟨And.left, fun own => ⟨own, ?_⟩⟩
    rw [Node.owner, root, Option.getD_none, (Forest.node?_eq_some_iff.mp own).2]
  have seen : T.sockets.node? i = some n → (T.part i).clientOf n = T.clientOf n := by
    intro own
    have named : n.id = i := (Forest.node?_eq_some_iff.mp own).2
    have slots : (T.part i).readSlot n.id = T.readSlot n.id := by
      funext slot
      cases slot <;> simp [readSlot, Forest.index, named, children]
    rw [clientOf, clientOf, slots, Forest.values, Forest.values, named, children]
  constructor
  · rintro ⟨own, root, live, same⟩
    have own' := (found root).mp own
    exact ⟨own', root, live, (seen own').symm.trans same⟩
  · rintro ⟨own, root, live, same⟩
    exact ⟨(found root).mpr own, root, live, (seen own).trans same⟩

theorem index_change (T : ObjectTree) (x : Pointer) (f : QTcpSocket → QTcpSocket) (i y : Pointer) :
    (T.change x f).sockets.index i y = T.sockets.index i y := Forest.index_modify ..

theorem index_call (T : ObjectTree) (x : Pointer) (f : QAbstractSocket → QAbstractSocket)
    (i y : Pointer) : (T.call x f).sockets.index i y = T.sockets.index i y := Forest.index_modify ..

theorem readSlot_change (T : ObjectTree) (x : Pointer) (f : QTcpSocket → QTcpSocket) (i : Pointer) :
    (T.change x f).readSlot i = T.readSlot i := by
  funext slot
  cases slot <;> simp [readSlot, index_change]

theorem view_change_self (seen : T.view i = some c) {f : QTcpSocket → QTcpSocket}
    (deleted : ∀ v, (f v).deleted = v.deleted) (readyRead : ∀ v, (f v).readyRead = v.readyRead)
    {g : QAbstractSocket → QAbstractSocket} (socket : ∀ v, (f v).socket = g v.socket) :
    (T.change i f).view i = some { c with socket := g c.socket } := by
  obtain ⟨n, own, root, live, rfl⟩ := view_eq_some_iff.mp seen
  have named : n.id = i := (Forest.node?_eq_some_iff.mp own).2
  subst named
  have own' : (T.change n.id f).sockets.node? n.id = some { n with value := f n.value } := by
    rw [change, Forest.node?_modify_self, own, Option.map_some]
  refine view_eq_some_iff.mpr ⟨_, own', root, (deleted _).trans live, ?_⟩
  have children : (T.change n.id f).sockets.values n.id = T.sockets.values n.id := by
    apply Forest.values_modify_of_not_child
    intro m mem same
    obtain ⟨listed, child⟩ := Forest.mem_children.mp mem
    exact id_ne_of_root own root (Forest.node?_id listed) child same.symm
  simp only [clientOf, children, readSlot_change, readyRead, socket]

theorem view_call_self (seen : T.view i = some c) (f : QAbstractSocket → QAbstractSocket) :
    (T.call i f).view i = some { c with socket := f c.socket } :=
  view_change_self (f := fun v => { v with socket := f v.socket }) seen (fun _ => rfl)
    (fun _ => rfl) fun _ => rfl

private theorem map_modify {α β : Type} {f : α → α} {g : β → β} {h : α → β}
    (simulates : ∀ a, h (f a) = g (h a)) (l : List α) (k : ℕ) :
    (l.modify k f).map h = (l.map h).modify k g := by
  apply List.ext_getElem?
  intro j
  rw [List.getElem?_map, List.getElem?_modify, List.getElem?_modify, List.getElem?_map,
    Option.map_eq_map, Option.map_eq_map, Option.map_map, Option.map_map]
  congr 1
  funext a
  by_cases here : k = j
  · simp [here, simulates]
  · simp [here]

theorem view_change_child (seen : T.view i = some c) (child : T.parent y = some i)
    {f : QTcpSocket → QTcpSocket} {g : ProxySocket → ProxySocket}
    (simulates : ∀ v, (f v).toProxySocket = g v.toProxySocket) :
    (T.change y f).view i = some (c.modifyChild (T.sockets.index i y) g) := by
  obtain ⟨n, own, root, live, rfl⟩ := view_eq_some_iff.mp seen
  have named : n.id = i := (Forest.node?_eq_some_iff.mp own).2
  subst named
  have other : n.id ≠ y := ne_of_root own root child
  have own' : (T.change y f).sockets.node? n.id = some n := by
    rw [change, Forest.node?_modify_of_ne _ _ other, own]
  refine view_eq_some_iff.mpr ⟨n, own', root, live, ?_⟩
  have children : (T.change y f).sockets.values n.id =
      (T.sockets.values n.id).modify (T.sockets.index n.id y) f := Forest.values_modify ..
  simp only [clientOf, readSlot_change, Client.modifyChild, children, map_modify simulates]

theorem view_call_child (seen : T.view i = some c) (child : T.parent y = some i)
    (f : QAbstractSocket → QAbstractSocket) :
    (T.call y f).view i = some
      (c.modifyChild (T.sockets.index i y) fun p => { p with socket := f p.socket }) :=
  view_change_child seen child fun _ => rfl

theorem getElem?_children_view (seen : T.view i = some c) {n : Node Pointer QTcpSocket}
    (own : T.sockets.node? y = some n) (child : n.parent = some i) :
    c.children[T.sockets.index i y]? = some n.value.toProxySocket := by
  obtain ⟨m, held, -, -, rfl⟩ := view_eq_some_iff.mp seen
  rw [clientOf, (Forest.node?_eq_some_iff.mp held).2, List.getElem?_map,
    Forest.getElem?_values own child, Option.map_some]

theorem socket_view (seen : T.view i = some c) :
    ∃ n, T.sockets.node? i = some n ∧ n.value.socket = c.socket := by
  obtain ⟨n, own, -, -, rfl⟩ := view_eq_some_iff.mp seen
  exact ⟨n, own, rfl⟩

theorem view_streamed (seen : T.view i = some c) (child : T.parent y = some i)
    (slot : SocketStream → SocketStream) :
    (T.streamed i y slot).view i = some (c.streamed (T.sockets.index i y) slot) := by
  obtain ⟨m, held, socket⟩ := socket_view seen
  obtain ⟨n, own, below⟩ := parent_eq_some_iff.mp child
  rw [streamed, held, own, Client.streamed_of_some (getElem?_children_view seen own below), ← socket]
  have first := view_call_self seen fun _ => (slot ⟨m.value.socket, n.value.socket⟩).m_as
  have second := view_call_child first (by rw [call, parent_change, child])
    fun _ => (slot ⟨m.value.socket, n.value.socket⟩).m_bs
  rwa [index_call] at second

end View

section Slots

variable {t : QtText} {T : ObjectTree} {i x new : Pointer} {c : Client}

theorem unread_view (seen : T.view i = some c) : T.unread i = c.socket.incoming := by
  obtain ⟨n, own, socket⟩ := socket_view seen
  rw [unread, own, ← socket]
  rfl

/-- The child that is found is the one that the client finds, by its position. -/
theorem findChild_view (inv : T.Inv) (seen : T.view i = some c) (name : QString) :
    c.findChild name = (T.findChild i name).map (T.sockets.index i) := by
  obtain ⟨n, own, -, -, rfl⟩ := view_eq_some_iff.mp seen
  rw [inv.findChild_eq]
  refine Eq.trans ?_
    (T.sockets.findIdx?_values (fun v => !v.deleted && v.objectName = name) i)
  rw [Client.findChild, clientOf, (Forest.node?_eq_some_iff.mp own).2, List.findIdx?_map]
  rfl

theorem view_connectToHost (inv : T.Inv) (seen : T.view i = some c) (fresh : new ∉ T.sockets.ids)
    (v : QTcpSocket) : (T.connectToHost new i v).view i =
      some { c with children := c.children ++ [v.toProxySocket] } := by
  obtain ⟨n, own, root, live, rfl⟩ := view_eq_some_iff.mp seen
  have named : n.id = i := (Forest.node?_eq_some_iff.mp own).2
  subst named
  have free : (⟨new, some n.id, v⟩ : Node Pointer QTcpSocket).id ∉ T.sockets.ids := fresh
  have other : n.id ≠ new := by
    rintro rfl
    exact fresh (Forest.mem_ids_iff.mpr ⟨n, own⟩)
  have added : view { T with sockets := T.sockets.add ⟨new, some n.id, v⟩ } n.id =
      some { T.clientOf n with children := (T.clientOf n).children ++ [v.toProxySocket] } := by
    refine view_eq_some_iff.mpr ⟨n, ?_, root, live, ?_⟩
    · rw [Forest.node?_add_of_ne free other, own]
    · have slots : n.value.readyRead.filterMap
          (readSlot { T with sockets := T.sockets.add ⟨new, some n.id, v⟩ } n.id) =
          n.value.readyRead.filterMap (T.readSlot n.id) := by
        apply List.filterMap_congr
        intro slot mem
        rcases (inv.client n.id n own root).readyRead with http | streams
        · rw [http, List.mem_singleton] at mem
          rw [mem]
          rfl
        · obtain ⟨y, rfl, below⟩ := streams slot mem
          obtain ⟨m, held, child⟩ := parent_eq_some_iff.mp below
          simp only [readSlot, Forest.index_add free held child]
      rw [clientOf, slots, Forest.values, Forest.children_add_self free rfl, List.map_append,
        List.map_append]
      rfl
  exact view_change_self (f := fun v => { v with errorOccurred := v.errorOccurred + 1 })
    (g := fun s => s) added (fun _ => rfl) (fun _ => rfl) fun _ => rfl

theorem view_onSocketReadyRead (inv : T.Inv) (seen : T.view i = some c)
    (fresh : new ∉ T.sockets.ids) :
    (T.onSocketReadyRead i t new).view i = some (c.onSocketReadyRead t T.upstreamProxy) := by
  have inv' : (T.call i .readAll).Inv := inv.call_of_state fun n _ => rfl
  have read := view_call_self seen .readAll
  have fresh' : new ∉ (T.call i .readAll).sockets.ids := by
    rw [call, change, Forest.ids_modify]
    exact fresh
  have search (name : QString) :
      Client.findChild { c with socket := c.socket.readAll } name =
        ((T.call i .readAll).findChild i name).map ((T.call i .readAll).sockets.index i) :=
    findChild_view inv' read name
  cases asked : request t c.socket.incoming with
  | invalid =>
      simp only [onSocketReadyRead, Client.onSocketReadyRead, unread_view seen, asked]
      exact view_call_self read .disconnectFromHost
  | plain host port reqData =>
      cases found : (T.call i .readAll).findChild i (key host port) with
      | none =>
          simp only [onSocketReadyRead, Client.onSocketReadyRead, unread_view seen, asked, search,
            found, Option.map_none]
          exact view_connectToHost inv' read fresh' _
      | some y =>
          simp only [onSocketReadyRead, Client.onSocketReadyRead, unread_view seen, asked, search,
            found, Option.map_some]
          exact view_call_child read (inv'.parent_of_findChild found) _
  | connect host port =>
      simp only [onSocketReadyRead, Client.onSocketReadyRead, unread_view seen, asked]
      exact view_connectToHost inv' read fresh' _

theorem view_foldl_streams (up : QNetworkProxy) (seen : T.view i = some c)
    {slots : List ReadyReadSlot}
    (streams : ∀ slot ∈ slots, ∃ y, slot = .onSocketAReadyRead i y ∧ T.parent y = some i) :
    (slots.foldl (readyReadSlot t new i) T).view i =
      some ((slots.filterMap (T.readSlot i)).foldl (Client.callSlot t up) c) := by
  induction slots generalizing T c with
  | nil => exact seen
  | cons slot slots ih =>
      obtain ⟨y, rfl, child⟩ := streams slot List.mem_cons_self
      have opensNone : ReadyReadSlot.onSocketAReadyRead i y ≠ .onSocketReadyRead := by simp
      have places := places_readyReadSlot t T new i opensNone
      have indices : (T.streamed i y .onSocketAReadyRead).readSlot i = T.readSlot i := by
        unfold streamed
        split
        · rw [call, call, readSlot_change, readSlot_change]
        · rfl
      have later := ih (view_streamed seen child .onSocketAReadyRead) fun slot mem => by
        obtain ⟨z, same, below⟩ := streams slot (List.mem_cons_of_mem _ mem)
        exact ⟨z, same, (congrFun places.2 z).trans below⟩
      rw [indices] at later
      exact later

private theorem filterMap_filter_eq {α β : Type} {f : α → Option β} {p : α → Bool} {q : β → Bool}
    {l : List α} (same : ∀ a ∈ l, ∀ b, f a = some b → p a = q b) :
    (l.filter p).filterMap f = (l.filterMap f).filter q := by
  rw [List.filterMap_filter, List.filter_filterMap]
  apply List.filterMap_congr
  intro a mem
  cases found : f a with
  | none => simp
  | some b => simp [same a mem b found, Option.filter]

theorem view_update (seen : T.view i = some c) {f : Node Pointer QTcpSocket → QTcpSocket}
    (live : ∀ n, T.sockets.node? i = some n → (f n).deleted = n.value.deleted)
    {d : Client} (socket : ∀ n, T.sockets.node? i = some n → (f n).socket = d.socket)
    (readyRead : ∀ n, T.sockets.node? i = some n →
      (f n).readyRead.filterMap (T.readSlot i) = d.readyRead)
    (children : (T.sockets.children i).map (fun n => (f n).toProxySocket) = d.children) :
    view { T with sockets := T.sockets.update f } i = some d := by
  obtain ⟨n, own, root, notDeleted, rfl⟩ := view_eq_some_iff.mp seen
  have named : n.id = i := (Forest.node?_eq_some_iff.mp own).2
  refine view_eq_some_iff.mpr ⟨{ n with value := f n }, ?_, root, (live n own).trans notDeleted, ?_⟩
  · rw [Forest.node?_update, own, Option.map_some]
  · have slots : readSlot { T with sockets := T.sockets.update f } i = T.readSlot i := by
      funext slot
      cases slot <;> simp [readSlot, Forest.index_update]
    have shown : (T.sockets.children i).map (QTcpSocket.toProxySocket ∘ f) = d.children := children
    simp only [clientOf, named, slots, Forest.values_update, List.map_map]
    rw [socket n own, readyRead n own, shown]

theorem view_delete_child (inv : T.Inv) (seen : T.view i = some c) (child : T.parent x = some i) :
    (T.delete x).view i = some
      ({ c with
        readyRead := c.readyRead.filter (· ≠ ReadSlot.stream (T.sockets.index i x)) }.modifyChild
          (T.sockets.index i x) fun p => { p with deleted := true }) := by
  obtain ⟨n, own, root, -, rfl⟩ := view_eq_some_iff.mp seen
  have named : n.id = i := (Forest.node?_eq_some_iff.mp own).2
  subst named
  obtain ⟨m, held, below⟩ := parent_eq_some_iff.mp child
  have other : n.id ≠ x := ne_of_root own root child
  apply view_update seen
  · intro k ownK
    rw [← Option.some.inj (own.symm.trans ownK)]
    simp [other, root]
  · intro k ownK
    rw [← Option.some.inj (own.symm.trans ownK)]
    rfl
  · intro k ownK
    rw [← Option.some.inj (own.symm.trans ownK)]
    apply filterMap_filter_eq
    intro slot mem b found
    rcases (inv.client n.id n own root).readyRead with http | streams
    · rw [http, List.mem_singleton] at mem
      subst mem
      have same : ReadSlot.onSocketReadyRead = b := Option.some.inj found
      subst same
      simp [ReadyReadSlot.keeps]
    · obtain ⟨y, rfl, belowY⟩ := streams slot mem
      obtain ⟨k, heldY, childY⟩ := parent_eq_some_iff.mp belowY
      have same : ReadSlot.stream (T.sockets.index n.id y) = b := Option.some.inj found
      subst same
      by_cases here : y = x
      · simp [ReadyReadSlot.keeps, here]
      · have apart : T.sockets.index n.id y ≠ T.sockets.index n.id x := fun same =>
          here (Forest.index_inj heldY childY held below same)
        simp [ReadyReadSlot.keeps, other, here, apart]
  · have marked : (T.sockets.children n.id).map (fun k => QTcpSocket.toProxySocket
          { k.value with
            readyRead := k.value.readyRead.filter fun slot => !slot.keeps x
            deleted := k.value.deleted || k.id = x || k.parent = some x }) =
        ((T.sockets.modify x fun v => { v with deleted := true }).values n.id).map
          QTcpSocket.toProxySocket := by
      rw [Forest.modify, Forest.values_update, List.map_map]
      apply List.map_congr_left
      intro k mem
      have parent : k.parent = some n.id := (Forest.mem_children.mp mem).2
      by_cases here : k.id = x
      · simp [here, QTcpSocket.toProxySocket]
      · simp [here, parent, other, QTcpSocket.toProxySocket]
    rw [marked, Forest.values_modify]
    exact map_modify (f := fun v => { v with deleted := true })
      (g := fun p => { p with deleted := true }) (h := QTcpSocket.toProxySocket) (fun _ => rfl) _ _

theorem view_onProxySocketConnectedHttps (seen : T.view i = some c) (child : T.parent x = some i) :
    (T.onProxySocketConnectedHttps x).view i =
      some (c.onProxySocketConnectedHttps (T.sockets.index i x)) := by
  obtain ⟨n, own, root, -, rfl⟩ := view_eq_some_iff.mp seen
  have named : n.id = i := (Forest.node?_eq_some_iff.mp own).2
  subst named
  obtain ⟨m, held, below⟩ := parent_eq_some_iff.mp child
  rw [onProxySocketConnectedHttps_eq held below (ne_of_root own root child).symm]
  apply view_update seen
  · intro k ownK
    rw [← Option.some.inj (own.symm.trans ownK), tunnelled_client]
  · intro k ownK
    rw [← Option.some.inj (own.symm.trans ownK), tunnelled_client]
    rfl
  · intro k ownK
    rw [← Option.some.inj (own.symm.trans ownK), tunnelled_client, List.filterMap_append]
    refine congrArg₂ (· ++ ·) (filterMap_filter_eq fun slot _ b found => ?_) rfl
    cases slot <;> cases found <;> simp
  · rw [Client.onProxySocketConnectedHttps, clientOf, Forest.values, List.map_map]
    apply List.map_congr_left
    intro k mem
    obtain ⟨listed, parent⟩ := Forest.mem_children.mp mem
    have apart : k.id ≠ n.id := (id_ne_of_root own root (Forest.node?_id listed) parent).symm
    rw [Function.comp_apply, tunnelled, if_neg apart]
    split <;> rfl

end Slots

end ObjectTree

end QvPlugin.Socksify
