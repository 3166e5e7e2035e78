import QvPlugin.Socksify.TreeInvariant

/-!
The part of the object tree that belongs to one client. A slot that a socket of the client calls
reads nothing outside of the part, and changes nothing there.
-/

set_option autoImplicit false
set_option relaxedAutoImplicit false

namespace QvPlugin.Socksify.ObjectTree

open Lib Qt

def part (T : ObjectTree) (i : Pointer) : ObjectTree := { T with sockets := T.sockets.part i }

def ownerOf (T : ObjectTree) (x : Pointer) : Option Pointer := (T.sockets.node? x).map Node.owner

/-- What `g` does concerns the part of `i` only, and is done the same without the others. -/
structure Local (i : Pointer) (T : ObjectTree) (g : ObjectTree → ObjectTree) : Prop where
  self : (g T).part i = g (T.part i)
  other : ∀ j ≠ i, (g T).part j = T.part j

section Local

variable {T : ObjectTree} {i x : Pointer} {g h : ObjectTree → ObjectTree}

theorem ownerOf_eq_some_iff :
    T.ownerOf x = some i ↔ ∃ n, T.sockets.node? x = some n ∧ n.owner = i :=
  Option.map_eq_some_iff

theorem ownerOf_change (T : ObjectTree) (x : Pointer) (f : QTcpSocket → QTcpSocket) :
    (T.change x f).ownerOf = T.ownerOf := by
  funext y
  rw [ownerOf, ownerOf, change, Forest.modify, Forest.node?_update, Option.map_map]
  rfl

theorem node?_part_of_owner (owned : T.ownerOf x = some i) :
    (T.part i).sockets.node? x = T.sockets.node? x := by
  obtain ⟨n, own, owner⟩ := ownerOf_eq_some_iff.mp owned
  rw [own]
  exact T.sockets.node?_part.mpr ⟨own, owner⟩

theorem parent_part_of_owner (owned : T.ownerOf x = some i) :
    (T.part i).parent x = T.parent x := by
  rw [parent, node?_part_of_owner owned, parent]

theorem unread_part_of_owner (owned : T.ownerOf x = some i) :
    (T.part i).unread x = T.unread x := by
  rw [unread, node?_part_of_owner owned, unread]

theorem part_change (T : ObjectTree) (i x : Pointer) (f : QTcpSocket → QTcpSocket) :
    (T.change x f).part i = (T.part i).change x f := by
  rw [part, change, Forest.part_modify]
  rfl

theorem not_mem_part (owned : T.ownerOf x = some i) {j : Pointer} (other : j ≠ i) :
    x ∉ (T.part j).sockets.ids := by
  intro mem
  obtain ⟨n, own, owner⟩ := T.sockets.mem_ids_part.mp mem
  obtain ⟨n', own', owner'⟩ := ownerOf_eq_some_iff.mp owned
  rw [Option.some.inj (own.symm.trans own'), owner'] at owner
  exact other owner.symm

namespace Local

theorem id (i : Pointer) (T : ObjectTree) : Local i T fun U => U := ⟨rfl, fun _ _ => rfl⟩

theorem comp (first : Local i T g) (second : Local i (g T) h) : Local i T fun U => h (g U) :=
  ⟨by rw [second.self, first.self],
    fun j other => (second.other j other).trans (first.other j other)⟩

theorem of_eq (known : Local i T g) (here : h T = g T) (there : h (T.part i) = g (T.part i)) :
    Local i T h :=
  ⟨by rw [here, there, known.self], fun j other => by rw [here, known.other j other]⟩

theorem change (owned : T.ownerOf x = some i) (f : QTcpSocket → QTcpSocket) :
    Local i T fun U => U.change x f := by
  refine ⟨part_change T i x f, fun j other => ?_⟩
  rw [part_change, ObjectTree.change, Forest.modify_of_not_mem _ _ (not_mem_part owned other)]

theorem call (owned : T.ownerOf x = some i) (f : QAbstractSocket → QAbstractSocket) :
    Local i T fun U => U.call x f := change owned _

theorem change_change {y : Pointer} (owned : T.ownerOf x = some i) (owned' : T.ownerOf y = some i)
    (f f' : QTcpSocket → QTcpSocket) : Local i T fun U => (U.change x f).change y f' :=
  (change owned f).comp (change (by rw [ownerOf_change, owned']) f')

theorem connectToHost {new : Pointer} (fresh : new ∉ T.sockets.ids) (owned : T.ownerOf i = some i)
    (v : QTcpSocket) : Local i T fun U => U.connectToHost new i v := by
  have added : Local i T fun U => { U with sockets := U.sockets.add ⟨new, some i, v⟩ } := by
    have free : (⟨new, some i, v⟩ : Node Pointer QTcpSocket).id ∉ T.sockets.ids := fresh
    exact ⟨congrArg (ObjectTree.mk _) (Forest.part_add_self free rfl),
      fun j other => congrArg (ObjectTree.mk _) (Forest.part_add_of_ne free (Ne.symm other))⟩
  have kept : ownerOf { T with sockets := T.sockets.add ⟨new, some i, v⟩ } i = some i := by
    obtain ⟨n, own, owner⟩ := ownerOf_eq_some_iff.mp owned
    have other : i ≠ new := by
      rintro rfl
      exact fresh (Forest.mem_ids_iff.mpr ⟨n, own⟩)
    rw [ownerOf, Forest.node?_add_of_ne fresh other, own, Option.map_some, owner]
  exact added.comp (change kept _)

theorem streamed {m_as m_bs : Pointer} (ownedA : T.ownerOf m_as = some i)
    (ownedB : T.ownerOf m_bs = some i) (slot : SocketStream → SocketStream) :
    Local i T fun U => U.streamed m_as m_bs slot := by
  obtain ⟨a, heldA, -⟩ := ownerOf_eq_some_iff.mp ownedA
  obtain ⟨b, heldB, -⟩ := ownerOf_eq_some_iff.mp ownedB
  refine of_eq (change_change ownedA ownedB
    (fun v => { v with socket := (slot ⟨a.value.socket, b.value.socket⟩).m_as })
    fun v => { v with socket := (slot ⟨a.value.socket, b.value.socket⟩).m_bs }) ?_ ?_
  · rw [ObjectTree.streamed, heldA, heldB]
    rfl
  · rw [ObjectTree.streamed, node?_part_of_owner ownedA, node?_part_of_owner ownedB, heldA, heldB]
    rfl

theorem onProxySocketReadyRead (owned : T.ownerOf x = some i)
    (parent : ∀ p, T.parent x = some p → T.ownerOf p = some i) :
    Local i T fun U => U.onProxySocketReadyRead x := by
  cases found : T.parent x with
  | none =>
      refine of_eq (id i T) ?_ ?_
      · rw [ObjectTree.onProxySocketReadyRead, found]
      · rw [ObjectTree.onProxySocketReadyRead, parent_part_of_owner owned, found]
  | some p =>
      refine of_eq (change_change owned (parent p found)
        (fun v => { v with socket := v.socket.readAll })
        fun v => { v with socket := v.socket.write (T.unread x) }) ?_ ?_
      · rw [ObjectTree.onProxySocketReadyRead, found]
        rfl
      · rw [ObjectTree.onProxySocketReadyRead, parent_part_of_owner owned, found,
          unread_part_of_owner owned]
        rfl

end Local

end Local

section Slots

variable {t : QtText} {T : ObjectTree} {i x new : Pointer}

def SlotOwned (T : ObjectTree) (i : Pointer) : ReadyReadSlot → Prop
  | .onSocketReadyRead => False
  | .onProxySocketReadyRead => True
  | .onSocketAReadyRead m_as m_bs | .onSocketBReadyRead m_as m_bs =>
      T.ownerOf m_as = some i ∧ T.ownerOf m_bs = some i

theorem places_readyReadSlot (t : QtText) (T : ObjectTree) (new x : Pointer) {slot : ReadyReadSlot}
    (opensNone : slot ≠ .onSocketReadyRead) :
    (T.readyReadSlot t new x slot).ownerOf = T.ownerOf ∧
      (T.readyReadSlot t new x slot).parent = T.parent := by
  cases slot with
  | onSocketReadyRead => exact absurd rfl opensNone
  | onProxySocketReadyRead =>
      simp only [readyReadSlot, onProxySocketReadyRead]
      split <;> simp [call, ownerOf_change, parent_change]
  | onSocketAReadyRead m_as m_bs =>
      simp only [readyReadSlot, streamed]
      split <;> simp [call, ownerOf_change, parent_change]
  | onSocketBReadyRead m_as m_bs =>
      simp only [readyReadSlot, streamed]
      split <;> simp [call, ownerOf_change, parent_change]

theorem Local.readyReadSlot (owned : T.ownerOf x = some i)
    (parent : ∀ p, T.parent x = some p → T.ownerOf p = some i) {slot : ReadyReadSlot}
    (slotOwned : SlotOwned T i slot) : Local i T fun U => U.readyReadSlot t new x slot := by
  cases slot with
  | onSocketReadyRead => exact False.elim slotOwned
  | onProxySocketReadyRead => exact onProxySocketReadyRead owned parent
  | onSocketAReadyRead m_as m_bs => exact streamed slotOwned.1 slotOwned.2 _
  | onSocketBReadyRead m_as m_bs => exact streamed slotOwned.1 slotOwned.2 _

theorem Local.foldl_readyReadSlot (owned : T.ownerOf x = some i)
    (parent : ∀ p, T.parent x = some p → T.ownerOf p = some i) {slots : List ReadyReadSlot}
    (slotsOwned : ∀ slot ∈ slots, SlotOwned T i slot) :
    Local i T fun U => slots.foldl (ObjectTree.readyReadSlot t new x) U := by
  induction slots generalizing T with
  | nil => exact .id i T
  | cons slot slots ih =>
      have first := slotsOwned slot List.mem_cons_self
      have opensNone : slot ≠ .onSocketReadyRead := by
        rintro rfl
        exact first
      obtain ⟨owners, parents⟩ := places_readyReadSlot t T new x opensNone
      refine (Local.readyReadSlot owned parent first).comp (ih ?_ ?_ ?_)
      · rw [owners, owned]
      · rw [owners, parents]
        exact parent
      · intro slot' later
        have own := slotsOwned slot' (List.mem_cons_of_mem _ later)
        cases slot' with
        | onSocketReadyRead => exact own
        | onProxySocketReadyRead => exact own
        | onSocketAReadyRead | onSocketBReadyRead =>
            rw [SlotOwned, owners]
            exact own

theorem Inv.leaf (inv : T.Inv) {n : Node Pointer QTcpSocket} (own : T.sockets.node? x = some n)
    (child : n.parent = some i) : T.sockets.children x = [] := by
  rw [List.eq_nil_iff_forall_not_mem]
  intro k mem
  obtain ⟨listed, below⟩ := Forest.mem_children.mp mem
  obtain ⟨m, held, ok⟩ := inv.proxySocket k.id k x (Forest.node?_id listed) below
  rw [Option.some.inj (own.symm.trans held), ok.root] at child
  exact absurd child (by simp)

theorem Inv.leaves (inv : T.Inv) (i : Pointer) :
    ∀ n ∈ T.sockets.children i, T.sockets.children n.id = [] := by
  intro n mem
  obtain ⟨listed, child⟩ := Forest.mem_children.mp mem
  exact inv.leaf (Forest.node?_id listed) child

theorem Inv.findChild_eq (inv : T.Inv) (i : Pointer) (name : QString) :
    T.findChild i name = ((T.sockets.children i).find? fun n =>
      !n.value.deleted && n.value.objectName = name).map Node.id :=
  Forest.findChild_of_leaves (inv.leaves i) _ _

theorem Inv.findChild_part (inv : T.Inv) (i : Pointer) (name : QString) :
    (T.part i).findChild i name = T.findChild i name := by
  have leaves : ∀ n ∈ (T.part i).sockets.children i, (T.part i).sockets.children n.id = [] := by
    intro n mem
    rw [part, Forest.children_part_self] at mem
    exact Forest.children_part_of_leaf _ (inv.leaves i n mem) i
  rw [inv.findChild_eq, findChild, Forest.findChild_of_leaves leaves, part,
    Forest.children_part_self]

theorem Inv.parent_of_findChild (inv : T.Inv) {y : Pointer} {name : QString}
    (found : T.findChild i name = some y) : T.parent y = some i := by
  rw [inv.findChild_eq, Option.map_eq_some_iff] at found
  obtain ⟨n, first, rfl⟩ := found
  obtain ⟨listed, child⟩ := Forest.mem_children.mp (List.mem_of_find?_eq_some first)
  exact parent_eq_some_iff.mpr ⟨n, Forest.node?_id listed, child⟩

theorem ownerOf_of_parent (child : T.parent x = some i) : T.ownerOf x = some i := by
  obtain ⟨n, own, parent⟩ := parent_eq_some_iff.mp child
  exact ownerOf_eq_some_iff.mpr ⟨n, own, by rw [Node.owner, parent, Option.getD_some]⟩

theorem ownerOf_of_root {n : Node Pointer QTcpSocket} (own : T.sockets.node? x = some n)
    (root : n.parent = none) : T.ownerOf x = some x := by
  refine ownerOf_eq_some_iff.mpr ⟨n, own, ?_⟩
  rw [Node.owner, root, Option.getD_none, (Forest.node?_eq_some_iff.mp own).2]

theorem Local.onSocketReadyRead (inv : T.Inv) (fresh : new ∉ T.sockets.ids)
    {m : Node Pointer QTcpSocket} (held : T.sockets.node? i = some m) (root : m.parent = none) :
    Local i T fun U => U.onSocketReadyRead i t new := by
  have owned : T.ownerOf i = some i := ownerOf_of_root held root
  have read : Local i T fun U => U.call i .readAll := .call owned _
  have inv' : (T.call i .readAll).Inv := inv.call_of_state fun n _ => rfl
  have owned' : (T.call i .readAll).ownerOf i = some i := by
    rw [ObjectTree.call, ownerOf_change, owned]
  have fresh' : new ∉ (T.call i .readAll).sockets.ids := by
    rw [ObjectTree.call, ObjectTree.change, Forest.ids_modify]
    exact fresh
  have unread : (T.part i).unread i = T.unread i := unread_part_of_owner owned
  have search (name : QString) : ((T.part i).call i .readAll).findChild i name =
      (T.call i .readAll).findChild i name := by
    rw [← read.self, inv'.findChild_part]
  cases asked : request t (T.unread i) with
  | invalid =>
      refine .of_eq (read.comp (.call owned' .disconnectFromHost)) ?_ ?_
      · simp only [ObjectTree.onSocketReadyRead, asked]
      · simp only [ObjectTree.onSocketReadyRead, unread, asked]
  | plain host port reqData =>
      cases found : (T.call i .readAll).findChild i (key host port) with
      | none =>
          refine .of_eq (read.comp (.connectToHost fresh' owned'
            (.plain T.upstreamProxy host port reqData))) ?_ ?_
          · simp only [ObjectTree.onSocketReadyRead, asked, found]
            rfl
          · simp only [ObjectTree.onSocketReadyRead, unread, asked, search, found]
            rfl
      | some y =>
          have ownedY : (T.call i .readAll).ownerOf y = some i :=
            ownerOf_of_parent (inv'.parent_of_findChild found)
          refine .of_eq (read.comp (.call ownedY (·.write reqData))) ?_ ?_
          · simp only [ObjectTree.onSocketReadyRead, asked, found]
          · simp only [ObjectTree.onSocketReadyRead, unread, asked, search, found]
  | connect host port =>
      refine .of_eq (read.comp (.connectToHost fresh' owned'
        (.tunnel T.upstreamProxy host port))) ?_ ?_
      · simp only [ObjectTree.onSocketReadyRead, asked]
        rfl
      · simp only [ObjectTree.onSocketReadyRead, unread, asked]
        rfl

theorem Local.onProxySocketConnectedHttps (child : T.parent x = some i)
    (owned : T.ownerOf i = some i) : Local i T fun U => U.onProxySocketConnectedHttps x := by
  have ownedX : T.ownerOf x = some i := ownerOf_of_parent child
  have parent : (T.part i).parent x = some i := by rw [parent_part_of_owner ownedX, child]
  have first := change_change owned owned
    (fun v => { v with readyRead := v.readyRead.filter (· ≠ .onSocketReadyRead) })
    fun v => { v with readyRead := v.readyRead ++ [.onSocketAReadyRead i x] }
  refine .of_eq (first.comp (change_change (x := x) (y := i) ?_ ?_
    (fun v => { v with readyRead := v.readyRead ++ [.onSocketBReadyRead i x] })
    fun v => { v with socket := v.socket.write httpsHeader })) ?_ ?_
  · rw [ownerOf_change, ownerOf_change, ownedX]
  · rw [ownerOf_change, ownerOf_change, owned]
  · rw [ObjectTree.onProxySocketConnectedHttps, child]
    rfl
  · rw [ObjectTree.onProxySocketConnectedHttps, parent]
    rfl

end Slots

section Event

variable {t : QtText} {T T' : ObjectTree} {i x : Pointer}

theorem Inv.ownerOf_parent (inv : T.Inv) (child : T.parent x = some i) :
    T.ownerOf i = some i := by
  obtain ⟨n, own, below⟩ := parent_eq_some_iff.mp child
  obtain ⟨m, held, ok⟩ := inv.proxySocket x n i own below
  exact ownerOf_of_root held ok.root

theorem Inv.owner_of_keeps (inv : T.Inv) {n : Node Pointer QTcpSocket}
    (own : T.sockets.node? n.id = some n) {slot : ReadyReadSlot} (mem : slot ∈ n.value.readyRead)
    (keeps : slot.keeps x = true) : T.ownerOf x = some n.owner := by
  cases child : n.parent with
  | none =>
      rw [← Option.some.inj ((ownerOf_of_root own child).symm.trans
        (ownerOf_eq_some_iff.mpr ⟨n, own, rfl⟩))]
      rcases (inv.client n.id n own child).readyRead with http | streams
      · rw [http, List.mem_singleton] at mem
        exact absurd keeps (by simp [mem, ReadyReadSlot.keeps])
      · obtain ⟨y, rfl, below⟩ := streams slot mem
        simp only [ReadyReadSlot.keeps, Bool.or_eq_true, decide_eq_true_eq] at keeps
        rcases keeps with rfl | rfl
        · exact ownerOf_of_root own child
        · exact ownerOf_of_parent below
  | some i =>
      have below : T.parent n.id = some i := parent_eq_some_iff.mpr ⟨n, own, child⟩
      rw [← Option.some.inj ((ownerOf_of_parent below).symm.trans
        (ownerOf_eq_some_iff.mpr ⟨n, own, rfl⟩))]
      obtain ⟨m, held, ok⟩ := inv.proxySocket n.id n i own child
      have named : m.id = i := (Forest.node?_eq_some_iff.mp held).2
      rcases ok.connected with plain | ⟨-, none | stream⟩
      · rw [plain.2, List.mem_singleton] at mem
        exact absurd keeps (by simp [mem, ReadyReadSlot.keeps])
      · rw [none.2] at mem
        exact absurd mem List.not_mem_nil
      · rw [stream.2.1, List.mem_singleton] at mem
        rw [mem, named] at keeps
        simp only [ReadyReadSlot.keeps, Bool.or_eq_true, decide_eq_true_eq] at keeps
        rcases keeps with rfl | rfl
        · exact inv.ownerOf_parent below
        · exact ownerOf_of_parent below

theorem Local.delete (inv : T.Inv) (owned : T.ownerOf x = some i) :
    Local i T fun U => U.delete x := by
  have commutes (j : Pointer) : (T.delete x).part j = (T.part j).delete x :=
    congrArg (ObjectTree.mk _) (Forest.part_update _ _ j)
  refine ⟨commutes i, fun j other => ?_⟩
  rw [commutes]
  refine congrArg (ObjectTree.mk _) (Forest.update_self _ fun n mem => ?_)
  obtain ⟨listed, owner⟩ := List.mem_filter.mp mem
  have own : T.sockets.node? n.id = some n := Forest.node?_id listed
  have ownerJ : n.owner = j := of_decide_eq_true owner
  have ownedN : T.ownerOf n.id = some j := ownerOf_eq_some_iff.mpr ⟨n, own, ownerJ⟩
  have apart : n.id ≠ x := by
    intro same
    rw [same, owned] at ownedN
    exact other (Option.some.inj ownedN).symm
  have notBelow : n.parent ≠ some x := by
    intro child
    have below : T.parent n.id = some x := parent_eq_some_iff.mpr ⟨n, own, child⟩
    rw [ownerOf_of_parent below] at ownedN
    rw [inv.ownerOf_parent below, ownedN] at owned
    exact other (Option.some.inj owned)
  have slots : n.value.readyRead.filter (fun slot => !slot.keeps x) = n.value.readyRead := by
    rw [List.filter_eq_self]
    intro slot mem
    by_contra keeps
    have ownedX := inv.owner_of_keeps (x := x) own mem (by simpa using keeps)
    rw [ownedX, ownerJ] at owned
    exact other (Option.some.inj owned)
  simp [apart, notBelow, slots]

theorem Local.onSocketErrors (owned : T.ownerOf x = some i) (l : List Unit) :
    Local i T fun U => l.foldl (fun U _ => U.onSocketError x) U := by
  induction l generalizing T with
  | nil => exact .id i T
  | cons _ l ih =>
      refine (Local.call owned fun s => { s with deleteLater := true }).comp (ih ?_)
      rw [ObjectTree.call, ownerOf_change, owned]

theorem Inv.connected_local (inv : T.Inv) {n : Node Pointer QTcpSocket}
    (own : T.sockets.node? x = some n) (can : n.value.Can .connected) :
    Local n.owner T fun U => U.event t x n.value .connected := by
  have owned : T.ownerOf x = some n.owner := ownerOf_eq_some_iff.mpr ⟨n, own, rfl⟩
  have first := Local.call owned fun s => { s with state := .connected }
  have owned' : (T.call x fun s => { s with state := .connected }).ownerOf x =
      some n.owner := by
    rw [ObjectTree.call, ownerOf_change, owned]
  cases child : n.parent with
  | none => exact absurd can (inv.client x n own child).state
  | some i =>
      obtain ⟨m, -, ok⟩ := inv.proxySocket x n i own child
      have below : T.parent x = some i := parent_eq_some_iff.mpr ⟨n, own, child⟩
      have owner : n.owner = i := by rw [Node.owner, child, Option.getD_some]
      simp only [ObjectTree.event]
      rcases ok.connected with plain | tunnel
      · rw [plain.1]
        exact first.comp (.change owned' _)
      · rw [tunnel.1]
        refine first.comp (.onProxySocketConnectedHttps ?_ ?_)
        · rw [ObjectTree.call, parent_change, below, owner]
        · rw [ObjectTree.call, ownerOf_change, owner, inv.ownerOf_parent below]

theorem Inv.readyRead_local (inv : T.Inv) {n : Node Pointer QTcpSocket} {new : Pointer}
    (own : T.sockets.node? x = some n) (fresh : new ∉ T.sockets.ids) :
    Local n.owner T fun U => U.event t x n.value (.readyRead new) := by
  have owned : T.ownerOf x = some n.owner := ownerOf_eq_some_iff.mpr ⟨n, own, rfl⟩
  have parents : ∀ p, T.parent x = some p → T.ownerOf p = some n.owner := by
    intro p below
    rw [inv.ownerOf_parent below, ← owned, ownerOf_of_parent below]
  simp only [ObjectTree.event]
  cases child : n.parent with
  | none =>
      have named : n.id = x := (Forest.node?_eq_some_iff.mp own).2
      have owner : n.owner = x := by rw [Node.owner, child, Option.getD_none, named]
      rcases (inv.client x n own child).readyRead with http | streams
      · rw [http, owner]
        exact .onSocketReadyRead inv fresh own child
      · refine .foldl_readyReadSlot owned parents fun slot mem => ?_
        obtain ⟨y, rfl, below⟩ := streams slot mem
        rw [named] at below
        rw [named, owner]
        exact ⟨owner ▸ owned, ownerOf_of_parent below⟩
  | some i =>
      obtain ⟨m, held, ok⟩ := inv.proxySocket x n i own child
      have below : T.parent x = some i := parent_eq_some_iff.mpr ⟨n, own, child⟩
      refine .foldl_readyReadSlot owned parents fun slot mem => ?_
      rcases ok.connected with plain | ⟨-, none | stream⟩
      · rw [plain.2, List.mem_singleton] at mem
        rw [mem]
        trivial
      · rw [none.2] at mem
        exact absurd mem List.not_mem_nil
      · rw [stream.2.1, List.mem_singleton] at mem
        rw [mem, (Forest.node?_eq_some_iff.mp held).2, (Forest.node?_eq_some_iff.mp own).2]
        exact ⟨parents i below, owned⟩

/-- An event of a socket concerns the part of the client that it belongs to, and reads nothing of
the other parts. -/
theorem Inv.event_local (inv : T.Inv) {n : Node Pointer QTcpSocket} {e : SocketEvent}
    (own : T.sockets.node? x = some n) (can : n.value.Can e)
    (fresh : ∀ new ∈ e.new, new ∉ T.sockets.ids) :
    Local n.owner T fun U => U.event t x n.value e := by
  have owned : T.ownerOf x = some n.owner := ownerOf_eq_some_iff.mpr ⟨n, own, rfl⟩
  cases e with
  | connected => exact inv.connected_local own can
  | errorOccurred =>
      simp only [ObjectTree.event]
      split
      · refine (Local.call owned fun s => { s with state := .unconnected }).comp
          (.onSocketErrors ?_ _)
        rw [ObjectTree.call, ownerOf_change, owned]
      · exact .onSocketErrors owned _
  | receive data => exact .call owned (·.receive data)
  | readyRead new => exact inv.readyRead_local own (fresh new rfl)
  | disconnected => exact .call owned .disconnected
  | deferredDelete => exact .delete inv owned

/-- Whether an event is one of the client at `i`, or of the proxy as a whole. -/
def Concerns (T : ObjectTree) (i : Pointer) : TreeEvent → Bool
  | .httpListen _ => true
  | .incomingConnection new _ => new = i
  | .socket x _ => T.ownerOf x = some i

/-- An event that concerns a client is done the same when the others are not there, and one that
does not leaves its part as it is. -/
theorem Inv.step_part (inv : T.Inv) {e : TreeEvent} (stepped : T.step t e = some T') (i : Pointer) :
    if T.Concerns i e then (T.part i).step t e = some (T'.part i) else T'.part i = T.part i := by
  cases e with
  | httpListen l =>
      rw [← Option.some.inj stepped]
      rfl
  | incomingConnection new accepted =>
      rw [step] at stepped
      split at stepped
      · exact absurd stepped (by simp)
      next fresh =>
        have free : (⟨new, none, .incoming accepted⟩ : Node Pointer QTcpSocket).id ∉
            T.sockets.ids := fresh
        rw [← Option.some.inj stepped]
        by_cases mine : new = i
        · subst mine
          have fresh' : new ∉ (T.part new).sockets.ids := fun mem =>
            fresh ((List.filter_sublist.map Node.id).subset mem)
          rw [if_pos (by simp [Concerns]), step, if_neg fresh']
          refine congrArg some (congrArg (ObjectTree.mk _) ?_)
          exact (Forest.part_add_self free rfl).symm
        · rw [if_neg (by simpa [Concerns] using mine)]
          exact congrArg (ObjectTree.mk _) (Forest.part_add_of_ne free mine)
  | socket x e =>
      obtain ⟨n, own, live, can, fresh, rfl⟩ := step_socket_eq_some.mp stepped
      have owned : T.ownerOf x = some n.owner := ownerOf_eq_some_iff.mpr ⟨n, own, rfl⟩
      have known := inv.event_local (t := t) own can fresh
      by_cases mine : n.owner = i
      · subst mine
        rw [if_pos (by simpa [Concerns] using owned), step_socket_eq_some]
        refine ⟨n, by rw [node?_part_of_owner owned, own], live, can, fun new here mem => ?_,
          known.self.symm⟩
        exact fresh new here ((List.filter_sublist.map Node.id).subset mem)
      · rw [if_neg (by simpa [Concerns, owned] using mine)]
        exact known.other i (Ne.symm mine)

/-- The events of a run that concern the client at `i`. -/
def own (t : QtText) (T : ObjectTree) (i : Pointer) (es : List TreeEvent) : List TreeEvent :=
  ((history (step t) T es).filter fun h => h.1.Concerns i h.2).map Prod.snd

/-- With the events of the other clients left out, the run still succeeds, and leads to the part of
the client. -/
theorem Inv.run_part (inv : T.Inv) {es : List TreeEvent} (ran : run (step t) T es = some T')
    (i : Pointer) : run (step t) (T.part i) (own t T i es) = some (T'.part i) := by
  induction es generalizing T with
  | nil =>
      rw [← Option.some.inj ran]
      rfl
  | cons e es ih =>
      obtain ⟨U, stepped, rest⟩ := exists_step_of_run_cons ran
      have later := ih (inv_step inv stepped) rest
      have parted := inv.step_part stepped i
      rw [own, history_cons stepped]
      by_cases mine : T.Concerns i e = true
      · rw [if_pos mine] at parted
        rw [List.filter_cons_of_pos (by simpa using mine), List.map_cons, run_cons parted]
        exact later
      · rw [if_neg mine] at parted
        rw [List.filter_cons_of_neg (by simpa using mine), ← parted]
        exact later

end Event

end QvPlugin.Socksify.ObjectTree
