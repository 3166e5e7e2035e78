import Mathlib.Data.List.Perm.Basic
import QvPlugin.Socksify.ClientInvariant

/-!
The requests of a client and the plain upstream sockets: where each request is, in what order the
sockets take them, and which are lost.
-/

set_option autoImplicit false
set_option relaxedAutoImplicit false

namespace QvPlugin.Socksify

open Lib Qt Utils

/-- What becomes of a plain socket: it is handed a request, or has an event of its own. -/
def ProxySocket.next (p : ProxySocket) (data : List QByteArray) :
    Option ProxySocketEvent → ProxySocket
  | none => data.foldl write p
  | some .connected => (p.setState .connected).write p.reqData
  | some .errorOccurred =>
      if p.socket.state = .connecting then p.setState .unconnected else p
  | some (.receive data) => { p with socket := p.socket.receive data }
  | some .readyRead => p.readAll
  | some .disconnected => { p with socket := p.socket.disconnected }
  | some .deferredDelete => { p with deleted := true }

namespace Client

variable {t : QtText}

def passedOn (t : QtText) : Client × QNetworkProxy × ClientEvent →
    Option (QString × UInt16 × QByteArray)
  | (c, _, .readyRead) =>
      if ReadSlot.onSocketReadyRead ∈ c.readyRead then
        match request t c.socket.incoming with
        | .plain host port reqData => some (host, port, reqData)
        | _ => none
      else none
  | _ => none

/-- The upstream socket for a host and a port, which may be the next to be created. -/
def socketFor (c : Client) (host : QString) (port : UInt16) : ℕ :=
  (c.findChild (key host port)).getD c.children.length

def handed (t : QtText) (k : ℕ) (h : Client × QNetworkProxy × ClientEvent) : List QByteArray :=
  match passedOn t h with
  | some (host, port, reqData) => if h.1.socketFor host port = k then [reqData] else []
  | none => []

def eventOf (k : ℕ) : ClientEvent → Option ProxySocketEvent
  | .proxySocket j e => if j = k then some e else none
  | _ => none


section Step

variable {c c' : Client} {up : QNetworkProxy} {e : ClientEvent}

theorem children_streamed_of_ne {j k : ℕ} (other : j ≠ k) (slot : SocketStream → SocketStream) :
    (c.streamed j slot).children[k]? = c.children[k]? := by
  cases here : c.children[j]? with
  | none => rw [streamed_of_none here]
  | some p =>
      rw [streamed_of_some here, getElem?_modifyChild]
      simp [other]

theorem children_callStreams_of_notMem (up : QNetworkProxy) {slots : List ReadSlot} {k : ℕ}
    (noHttp : ReadSlot.onSocketReadyRead ∉ slots) (other : ReadSlot.stream k ∉ slots)
    (c : Client) : (slots.foldl (callSlot t up) c).children[k]? = c.children[k]? := by
  induction slots generalizing c with
  | nil => rfl
  | cons slot slots ih =>
      rw [List.mem_cons, not_or] at noHttp other
      cases slot with
      | onSocketReadyRead => exact absurd rfl noHttp.1
      | stream j =>
          have apart : j ≠ k := fun same => other.1 (same ▸ rfl)
          rw [List.foldl_cons, ih noHttp.2 other.2, callSlot, children_streamed_of_ne apart]

theorem children_proxySocketEvent_of_ne {j k : ℕ} (other : j ≠ k) (p : ProxySocket)
    (e : ProxySocketEvent) : (c.proxySocketEvent j p e).children[k]? = c.children[k]? := by
  have apart (d : Client) (f : ProxySocket → ProxySocket) :
      (d.modifyChild j f).children[k]? = d.children[k]? := by
    rw [getElem?_modifyChild]
    simp [other]
  cases e with
  | connected =>
      simp only [proxySocketEvent]
      split
      · exact apart _ _
      · rw [onProxySocketConnected, apart, apart]
  | errorOccurred =>
      simp only [proxySocketEvent]
      split
      · exact apart _ _
      · rfl
  | receive data => exact apart _ _
  | readyRead =>
      simp only [proxySocketEvent]
      split
      · split
        · exact children_streamed_of_ne other _
        · rfl
      · exact apart _ _
  | disconnected => exact apart _ _
  | deferredDelete => exact apart _ _

theorem children_proxySocketEvent_plain {k : ℕ} {p : ProxySocket} (here : c.children[k]? = some p)
    (plain : p.https = false) (e : ProxySocketEvent) :
    (c.proxySocketEvent k p e).children[k]? = some (p.next [] (some e)) := by
  have self {d : Client} {q : ProxySocket} (there : d.children[k]? = some q)
      (f : ProxySocket → ProxySocket) : (d.modifyChild k f).children[k]? = some (f q) := by
    rw [getElem?_modifyChild, there, Option.map_some, if_pos rfl]
  cases e with
  | connected =>
      simp only [proxySocketEvent, plain]
      exact self (self here _) _
  | errorOccurred =>
      simp only [proxySocketEvent, ProxySocket.next]
      split
      · exact self here _
      · exact here
  | receive data => exact self here _
  | readyRead =>
      simp only [proxySocketEvent, plain]
      exact self here _
  | disconnected => exact self here _
  | deferredDelete => exact self here _

theorem handed_of_not_readyRead (k : ℕ) (other : e ≠ .readyRead) :
    handed t k (c, up, e) = [] := by
  cases e <;> first | exact absurd rfl other | rfl

/-- What one event makes of a plain upstream socket. -/
theorem plain_step (inv : c.Inv) (stepped : c.step t (up, e) = some c') {k : ℕ} {p : ProxySocket}
    (here : c.children[k]? = some p) (plain : p.https = false) :
    c'.children[k]? = some (p.next (handed t k (c, up, e)) (eventOf k e)) := by
  obtain ⟨-, happened⟩ := step_eq_some.mp stepped
  cases e with
  | receive data => cases happened; exact here
  | errorOccurred => cases happened; exact here
  | disconnected => cases happened; exact here
  | readyRead =>
      rcases inv.slots with http | noHttp
      · rw [event_readyRead_http http, Option.some.injEq] at happened
        have asks := asks_onSocketReadyRead t up c
        rw [happened] at asks
        have reads : ReadSlot.onSocketReadyRead ∈ c.readyRead := by simp [http]
        cases asks with
        | invalid asked => simpa [handed, passedOn, asked, ProxySocket.next, eventOf] using here
        | @reused host port reqData j asked found =>
            rw [getElem?_modifyChild]
            by_cases hit : j = k
            · simp [handed, passedOn, asked, reads, socketFor, found, hit, here,
                ProxySocket.next, eventOf]
            · simp [handed, passedOn, asked, reads, socketFor, found, hit, here,
                ProxySocket.next, eventOf]
        | opened opens =>
            have inside := (List.getElem?_eq_some_iff.mp here).1
            have old (q : ProxySocket) : (c.children ++ [q])[k]? = some p :=
              (List.getElem?_append_left inside).trans here
            cases opens with
            | plain asked missing =>
                have other : ¬ c.children.length = k := by omega
                simpa [handed, passedOn, asked, reads, socketFor, missing, other,
                  ProxySocket.next, eventOf] using old _
            | tunnel asked =>
                simpa [handed, passedOn, asked, ProxySocket.next, eventOf] using old _
      · cases happened
        have untied : ReadSlot.stream k ∉ c.readyRead := by
          intro mem
          obtain ⟨q, there, -, https, -⟩ := inv.streams k mem
          have same : p = q := Option.some.inj (here.symm.trans there)
          rw [← same, plain] at https
          exact absurd https (by simp)
        rw [children_callStreams_of_notMem up noHttp untied, here]
        simp [handed, passedOn, noHttp, ProxySocket.next, eventOf]
  | proxySocket j e =>
      obtain ⟨q, there, -, -, rfl⟩ := event_proxySocket.mp happened
      rw [handed_of_not_readyRead k (by simp)]
      by_cases hit : j = k
      · subst hit
        have same : p = q := Option.some.inj (here.symm.trans there)
        subst same
        rw [children_proxySocketEvent_plain here plain, eventOf, if_pos rfl]
      · rw [children_proxySocketEvent_of_ne hit, here, eventOf, if_neg hit]
        rfl

/-- A socket that an event adds is the one that the client asked for. -/
theorem opened_step (inv : c.Inv) (stepped : c.step t (up, e) = some c') {k : ℕ} {p : ProxySocket}
    (missing : c.children[k]? = none) (there : c'.children[k]? = some p) :
    e = .readyRead ∧ c.readyRead = [.onSocketReadyRead] ∧ k = c.children.length ∧
      Opens t up c p := by
  have old {d : Client} (later : c.ChildrenLater d) (inD : d.children[k]? = some p) : False := by
    obtain ⟨q, here, -⟩ := later.back inD
    exact absurd (missing.symm.trans here) (by simp)
  cases shape_of_step inv stepped with
  | kept later slots => exact (old later there).elim
  | opened opens http slots children =>
      rw [children] at there
      rcases getElem?_concat there with here | ⟨atEnd, rfl⟩
      · exact absurd (missing.symm.trans here) (by simp)
      · exact ⟨rfl, http, atEnd, opens⟩
  | @tunnelled j q here live https connecting =>
      have later : c.ChildrenLater (c.modifyChild j (·.setState .connected)) :=
        .modifyChild rfl fun p _ => .setState p (by decide)
      exact (old later there).elim
  | @deleted j q here =>
      simp only [proxySocketEvent] at there
      rw [getElem?_modifyChild, missing] at there
      exact absurd there (by simp)

theorem handed_eq_nil_of_https (inv : c.Inv) {k : ℕ} {p : ProxySocket}
    (here : c.children[k]? = some p) (https : p.https = true) :
    handed t k (c, up, e) = [] := by
  unfold handed
  split
  · rename_i host port reqData _
    rw [if_neg]
    intro same
    rw [socketFor] at same
    cases found : c.findChild (key host port) with
    | none =>
        rw [found, Option.getD_none] at same
        change c.children.length = k at same
        have inside := (List.getElem?_eq_some_iff.mp here).1
        omega
    | some j =>
        rw [found, Option.getD_some] at same
        subst same
        obtain ⟨q, there, -, name⟩ := findChild_eq_some found
        have same : p = q := Option.some.inj (here.symm.trans there)
        have empty := inv.named j p here
        rw [if_pos https, same, name] at empty
        exact key_ne_empty host port empty
  · rfl

theorem handed_ne_nil {k : ℕ} (some : handed t k (c, up, e) ≠ []) :
    e = .readyRead ∧ ReadSlot.onSocketReadyRead ∈ c.readyRead ∧ ∃ host port reqData,
      request t c.socket.incoming = .plain host port reqData ∧ c.socketFor host port = k ∧
        handed t k (c, up, e) = [reqData] := by
  cases e with
  | readyRead =>
      refine ⟨rfl, ?_⟩
      by_cases reads : ReadSlot.onSocketReadyRead ∈ c.readyRead
      · refine ⟨reads, ?_⟩
        cases asked : request t c.socket.incoming with
        | plain host port reqData =>
            by_cases mine : c.socketFor host port = k
            · exact ⟨host, port, reqData, rfl, mine, by simp [handed, passedOn, reads, asked, mine]⟩
            · exact absurd (by simp [handed, passedOn, reads, asked, mine]) some
        | invalid => exact absurd (by simp [handed, passedOn, asked]) some
        | connect host port => exact absurd (by simp [handed, passedOn, asked]) some
      · exact absurd (by simp [handed, passedOn, reads]) some
  | _ => exact absurd (handed_of_not_readyRead k (by simp)) some

theorem exists_child_of_handed (inv : c.Inv) (stepped : c.step t (up, e) = some c') {k : ℕ}
    (some : handed t k (c, up, e) ≠ []) : ∃ p, c'.children[k]? = .some p := by
  obtain ⟨rfl, reads, host, port, reqData, asked, mine, -⟩ := handed_ne_nil some
  rw [socketFor] at mine
  cases found : c.findChild (key host port) with
  | some j =>
      rw [found, Option.getD_some] at mine
      subst mine
      obtain ⟨p, here, -⟩ := findChild_eq_some found
      obtain ⟨q, there, -⟩ := purpose_step inv stepped here
      exact ⟨q, there⟩
  | none =>
      rw [found, Option.getD_none] at mine
      have http := inv.slots.resolve_right fun without => without reads
      obtain ⟨-, happened⟩ := step_eq_some.mp stepped
      rw [event_readyRead_http http, Option.some.injEq] at happened
      have asks := asks_onSocketReadyRead t up c
      rw [happened] at asks
      cases asks with
      | invalid other => exact absurd (asked.symm.trans other) (by simp)
      | reused other there =>
          obtain ⟨rfl, rfl, -⟩ := Request.plain.inj (asked.symm.trans other)
          exact absurd (found.symm.trans there) (by simp)
      | opened opens => exact ⟨_, by rw [← mine]; exact List.getElem?_concat_length ..⟩

end Step

end Client

section Ledger

/-- Where the requests of a plain socket are: the early ones, handed over before it was connected,
are sent ahead of the first one, which waits in `reqData`; the last list is of those it refused. -/
inductive Ledger (p : ProxySocket) (early : List QByteArray) :
    List QByteArray → List QByteArray → Prop where
  | connecting (state : p.socket.state = .connecting) (stays : p.socket.deleteLater = false)
      (written : p.socket.written = early) : Ledger p early (p.reqData :: early) []
  | connected {late : List QByteArray} (state : p.socket.state = .connected)
      (stays : p.socket.deleteLater = false)
      (written : p.socket.written = early ++ p.reqData :: late) :
      Ledger p early (p.reqData :: (early ++ late)) []
  | ended {late lost : List QByteArray} (state : p.socket.state = .unconnected)
      (goes : p.socket.deleteLater = true)
      (written : p.socket.written = early ++ p.reqData :: late) :
      Ledger p early (p.reqData :: (early ++ late ++ lost)) lost
  | failed {lost : List QByteArray} (state : p.socket.state = .unconnected)
      (stays : p.socket.deleteLater = false) (written : p.socket.written = early) :
      Ledger p early (p.reqData :: (early ++ lost)) lost

def ProxySocket.early (p : ProxySocket) (data : List QByteArray) : List QByteArray :=
  if p.socket.state = .connecting then data else []

def ProxySocket.refused (p : ProxySocket) (data : List QByteArray) : List QByteArray :=
  if p.socket.state = .unconnected then data else []

def ProxySocket.took (p : ProxySocket) (data : List QByteArray) : ProxySocket :=
  { p with socket := { p.socket with written := p.socket.written ++ data } }

theorem foldl_write_of_accepts {p : ProxySocket} (accepts : p.socket.Accepts)
    (data : List QByteArray) : data.foldl ProxySocket.write p = p.took data := by
  induction data generalizing p with
  | nil => simp [ProxySocket.took]
  | cons d data ih =>
      have written : p.write d = p.took [d] := by
        rw [ProxySocket.write, QAbstractSocket.write, if_pos accepts, ProxySocket.took]
      have more : (p.took [d]).took data = p.took (d :: data) := by simp [ProxySocket.took]
      have still : (p.took [d]).socket.Accepts := accepts
      rw [List.foldl_cons, written, ih still, more]

theorem foldl_write_of_not_accepts {p : ProxySocket} (refuses : ¬ p.socket.Accepts)
    (data : List QByteArray) : data.foldl ProxySocket.write p = p := by
  induction data with
  | nil => rfl
  | cons d data ih =>
      have same : p.write d = p := by
        rw [ProxySocket.write, QAbstractSocket.write, if_neg refuses]
      rw [List.foldl_cons, same, ih]

theorem Ledger.handed {p : ProxySocket} {early reqs lost : List QByteArray}
    (ledger : Ledger p early reqs lost) (open_ : p.socket.isWritable = true)
    (data : List QByteArray) :
    Ledger (data.foldl ProxySocket.write p) (early ++ p.early data) (reqs ++ data)
      (lost ++ p.refused data) := by
  have takes (made : p.socket.state ≠ .unconnected) : p.socket.Accepts := ⟨open_, made⟩
  have refuses (gone : p.socket.state = .unconnected) : ¬ p.socket.Accepts := fun a => a.2 gone
  cases ledger with
  | connecting state stays written =>
      have made : p.socket.state ≠ .unconnected := by simp [state]
      rw [foldl_write_of_accepts (takes made), ProxySocket.refused, if_neg made, ProxySocket.early,
        if_pos state]
      exact Ledger.connecting state stays (congrArg (· ++ data) written)
  | connected state stays written =>
      have made : p.socket.state ≠ .unconnected := by simp [state]
      have settled : p.socket.state ≠ .connecting := by simp [state]
      rw [foldl_write_of_accepts (takes made), ProxySocket.refused, if_neg made, ProxySocket.early,
        if_neg settled, List.append_nil, List.cons_append, List.append_assoc]
      have sent : (p.took data).socket.written = _ ++ p.reqData :: (_ ++ data) :=
        (congrArg (· ++ data) written).trans (List.append_assoc ..)
      exact Ledger.connected state stays sent
  | ended state goes written =>
      have settled : p.socket.state ≠ .connecting := by simp [state]
      rw [foldl_write_of_not_accepts (refuses state), ProxySocket.refused, if_pos state,
        ProxySocket.early, if_neg settled, List.append_nil, List.cons_append, List.append_assoc]
      exact Ledger.ended state goes written
  | failed state stays written =>
      have settled : p.socket.state ≠ .connecting := by simp [state]
      rw [foldl_write_of_not_accepts (refuses state), ProxySocket.refused, if_pos state,
        ProxySocket.early, if_neg settled, List.append_nil, List.cons_append, List.append_assoc]
      exact Ledger.failed state stays written

/-- An event of the socket itself moves the requests on: the first one is sent when the connection
is made. -/
theorem Ledger.event {p : ProxySocket} {early reqs lost : List QByteArray}
    (ledger : Ledger p early reqs lost) (open_ : p.socket.isWritable = true)
    {e : ProxySocketEvent} (can : p.Can e) : Ledger (p.next [] (some e)) early reqs lost := by
  cases e with
  | connected =>
      have state : p.socket.state = .connecting := can
      cases ledger with
      | connecting _ stays written =>
          have accepts : (p.setState .connected).socket.Accepts :=
            ⟨open_, by simp [ProxySocket.setState]⟩
          have made : ((p.setState .connected).write p.reqData).socket.state = .connected := by
            simp [ProxySocket.write, ProxySocket.setState]
          have sent : ((p.setState .connected).write p.reqData).socket.written =
              early ++ p.reqData :: [] := by
            rw [ProxySocket.write, QAbstractSocket.written_write, if_pos accepts, ← written]
            rfl
          have moved := Ledger.connected made
            (by simpa [ProxySocket.write, ProxySocket.setState] using stays) sent
          rwa [List.append_nil] at moved
      | connected other => exact absurd (state.symm.trans other) (by decide)
      | ended other => exact absurd (state.symm.trans other) (by decide)
      | failed other => exact absurd (state.symm.trans other) (by decide)
  | errorOccurred =>
      rw [ProxySocket.next]
      split
      · rename_i state
        cases ledger with
        | connecting _ stays written =>
            have moved : Ledger (p.setState .unconnected) early (p.reqData :: (early ++ [])) [] :=
              Ledger.failed rfl stays written
            rwa [List.append_nil] at moved
        | connected other => exact absurd (state.symm.trans other) (by decide)
        | ended other => exact absurd (state.symm.trans other) (by decide)
        | failed other => exact absurd (state.symm.trans other) (by decide)
      · exact ledger
  | receive data =>
      cases ledger with
      | connecting state stays written => exact Ledger.connecting state stays written
      | connected state stays written => exact Ledger.connected state stays written
      | ended state goes written => exact Ledger.ended state goes written
      | failed state stays written => exact Ledger.failed state stays written
  | readyRead =>
      cases ledger with
      | connecting state stays written => exact Ledger.connecting state stays written
      | connected state stays written => exact Ledger.connected state stays written
      | ended state goes written => exact Ledger.ended state goes written
      | failed state stays written => exact Ledger.failed state stays written
  | disconnected =>
      have state : p.socket.state = .connected := can
      cases ledger with
      | connected _ stays written =>
          have moved : Ledger { p with socket := p.socket.disconnected } early
              (p.reqData :: (early ++ _ ++ [])) [] := Ledger.ended rfl rfl written
          rwa [List.append_nil] at moved
      | connecting other => exact absurd (state.symm.trans other) (by decide)
      | ended other => exact absurd (state.symm.trans other) (by decide)
      | failed other => exact absurd (state.symm.trans other) (by decide)
  | deferredDelete =>
      cases ledger with
      | connecting state stays written => exact Ledger.connecting state stays written
      | connected state stays written => exact Ledger.connected state stays written
      | ended state goes written => exact Ledger.ended state goes written
      | failed state stays written => exact Ledger.failed state stays written

theorem Ledger.plain (up : QNetworkProxy) (host : QString) (port : UInt16) (reqData : QByteArray) :
    Ledger (.plain up host port reqData) [] [reqData] [] :=
  Ledger.connecting (p := .plain up host port reqData) rfl rfl rfl

end Ledger

namespace Client

variable {t : QtText}

def refused (t : QtText) (k : ℕ) (h : Client × QNetworkProxy × ClientEvent) : List QByteArray :=
  match h.1.children[k]? with
  | some p => p.refused (handed t k h)
  | none => []

def early (t : QtText) (k : ℕ) (h : Client × QNetworkProxy × ClientEvent) : List QByteArray :=
  match h.1.children[k]? with
  | some p => p.early (handed t k h)
  | none => []

def requestsFor (t : QtText) (k : ℕ) (past : List (Client × QNetworkProxy × ClientEvent)) :
    List QByteArray := past.flatMap (handed t k)

def earlyFor (t : QtText) (k : ℕ) (past : List (Client × QNetworkProxy × ClientEvent)) :
    List QByteArray := past.flatMap (early t k)

def refusedBy (t : QtText) (k : ℕ) (past : List (Client × QNetworkProxy × ClientEvent)) :
    List QByteArray := past.flatMap (refused t k)

theorem requestsFor_concat (k : ℕ) (past : List (Client × QNetworkProxy × ClientEvent))
    (h : Client × QNetworkProxy × ClientEvent) :
    requestsFor t k (past ++ [h]) = requestsFor t k past ++ handed t k h := by
  simp [requestsFor]

theorem earlyFor_concat (k : ℕ) (past : List (Client × QNetworkProxy × ClientEvent))
    (h : Client × QNetworkProxy × ClientEvent) :
    earlyFor t k (past ++ [h]) = earlyFor t k past ++ early t k h := by
  simp [earlyFor]

theorem refusedBy_concat (k : ℕ) (past : List (Client × QNetworkProxy × ClientEvent))
    (h : Client × QNetworkProxy × ClientEvent) :
    refusedBy t k (past ++ [h]) = refusedBy t k past ++ refused t k h := by
  simp [refusedBy]

/-- The requests of a history are where the ledgers of the sockets say. -/
structure Booked (t : QtText) (c : Client)
    (past : List (Client × QNetworkProxy × ClientEvent)) : Prop where
  inv : c.Inv
  ledger : ∀ (k : ℕ) (p : ProxySocket), c.children[k]? = some p → p.https = false →
    Ledger p (earlyFor t k past) (requestsFor t k past) (refusedBy t k past)
  none : ∀ k : ℕ, c.children[k]? = none →
    earlyFor t k past = [] ∧ requestsFor t k past = [] ∧ refusedBy t k past = []
  tunnel : ∀ (k : ℕ) (p : ProxySocket), c.children[k]? = some p → p.https = true →
    requestsFor t k past = []

theorem booked_incoming (accepted : Bool) : Booked t (incoming accepted) [] where
  inv := inv_incoming accepted
  ledger k p here := absurd here (by simp [incoming])
  none k _ := ⟨rfl, rfl, rfl⟩
  tunnel k p here := absurd here (by simp [incoming])

theorem eventOf_can {c c' : Client} {up : QNetworkProxy} {e : ClientEvent} {k : ℕ}
    {p : ProxySocket} (here : c.children[k]? = some p) (happened : c.event t (up, e) = some c')
    {e' : ProxySocketEvent} (mine : eventOf k e = some e') : p.Can e' := by
  cases e with
  | proxySocket j e =>
      rw [eventOf] at mine
      by_cases hit : j = k
      · rw [if_pos hit, Option.some.injEq] at mine
        subst hit mine
        obtain ⟨q, there, -, can, -⟩ := event_proxySocket.mp happened
        have same : p = q := Option.some.inj (here.symm.trans there)
        exact same ▸ can
      · rw [if_neg hit] at mine
        exact absurd mine (by simp)
  | _ => exact absurd mine (by simp [eventOf])

theorem handed_eq_nil_of_eventOf {c : Client} {up : QNetworkProxy} {e : ClientEvent} {k : ℕ}
    {e' : ProxySocketEvent} (mine : eventOf k e = some e') (j : ℕ) :
    handed t j (c, up, e) = [] := by
  cases e with
  | proxySocket => exact handed_of_not_readyRead j (by simp)
  | _ => exact absurd mine (by simp [eventOf])

theorem booked_step {c c' : Client} {past : List (Client × QNetworkProxy × ClientEvent)}
    {a : QNetworkProxy × ClientEvent} (booked : Booked t c past) (stepped : c.step t a = some c') :
    Booked t c' (past ++ [(c, a)]) := by
  obtain ⟨up, e⟩ := a
  have inv := booked.inv
  have fresh {k : ℕ} {p : ProxySocket} (missing : c.children[k]? = Option.none)
      (there : c'.children[k]? = some p) := opened_step inv stepped missing there
  have kept {k : ℕ} {p q : ProxySocket} (here : c.children[k]? = some q)
      (there : c'.children[k]? = some p) : p.https = q.https := by
    obtain ⟨p', there', same⟩ := purpose_step inv stepped here
    rw [Option.some.inj (there.symm.trans there')]
    exact congrArg (·.2.2.1) same
  refine ⟨inv_step inv stepped, fun k p there plain => ?_, fun k missing => ?_,
    fun k p there https => ?_⟩
  · rw [earlyFor_concat, requestsFor_concat, refusedBy_concat]
    cases here : c.children[k]? with
    | none =>
        obtain ⟨rfl, http, rfl, opens⟩ := fresh here there
        obtain ⟨nothingEarly, nothing, nothingLost⟩ := booked.none _ here
        have noneEarly : early t c.children.length (c, up, .readyRead) = [] := by
          rw [early, here]
        have noneLost : refused t c.children.length (c, up, .readyRead) = [] := by
          rw [refused, here]
        rw [nothingEarly, nothing, nothingLost, noneEarly, noneLost]
        cases opens with
        | @plain host port reqData asked missing =>
            have reads : ReadSlot.onSocketReadyRead ∈ c.readyRead := by simp [http]
            have given : handed t c.children.length (c, up, .readyRead) = [reqData] := by
              simp [handed, passedOn, reads, asked, socketFor, missing]
            rw [given]
            exact .plain up host port reqData
        | tunnel asked => exact absurd plain (by simp [ProxySocket.tunnel])
    | some q =>
        have lost : refused t k (c, up, e) = q.refused (handed t k (c, up, e)) := by
          rw [refused, here]
        have soon : early t k (c, up, e) = q.early (handed t k (c, up, e)) := by
          rw [early, here]
        have before : q.https = false := (kept here there).symm.trans plain
        have after := plain_step inv stepped here before
        have same : p = _ := Option.some.inj (there.symm.trans after)
        have ledger := booked.ledger k q here before
        have open_ := inv.writable k q here
        obtain ⟨-, happened⟩ := step_eq_some.mp stepped
        rw [soon, lost, same]
        cases mine : eventOf k e with
        | none => exact ledger.handed open_ _
        | some e' =>
            rw [handed_eq_nil_of_eventOf mine k]
            have moved := ledger.event open_ (eventOf_can here happened mine)
            simpa [ProxySocket.refused, ProxySocket.early] using moved
  · have before : c.children[k]? = Option.none := by
      cases here : c.children[k]? with
      | none => rfl
      | some q =>
          obtain ⟨p, there, -⟩ := purpose_step inv stepped here
          exact absurd (missing.symm.trans there) (by simp)
    obtain ⟨nothingEarly, nothing, nothingLost⟩ := booked.none k before
    have none : handed t k (c, up, e) = [] := by
      by_contra some
      obtain ⟨p, there⟩ := exists_child_of_handed inv stepped some
      exact absurd (missing.symm.trans there) (by simp)
    have noneEarly : early t k (c, up, e) = [] := by
      rw [early, before]
    have noneLost : refused t k (c, up, e) = [] := by
      rw [refused, before]
    rw [earlyFor_concat, requestsFor_concat, refusedBy_concat, nothingEarly, nothing, nothingLost,
      noneEarly, none, noneLost]
    exact ⟨rfl, rfl, rfl⟩
  · rw [requestsFor_concat]
    cases here : c.children[k]? with
    | some q =>
        have before : q.https = true := (kept here there).symm.trans https
        rw [booked.tunnel k q here before, handed_eq_nil_of_https inv here before]
        rfl
    | none =>
        obtain ⟨rfl, http, rfl, opens⟩ := fresh here there
        rw [(booked.none _ here).2.1]
        cases opens with
        | plain asked missing => exact absurd https (by simp [ProxySocket.plain])
        | tunnel asked => simp [handed, passedOn, asked]

end Client

/-- The request that waits for a connection, also after the attempt to make one has failed. -/
def ProxySocket.waiting (p : ProxySocket) : List QByteArray :=
  if p.socket.state = .connecting ∨ p.socket.state = .unconnected ∧ p.socket.deleteLater = false then
    [p.reqData]
  else []

/-- Each request is sent, or waits, or was refused, and no request is in two of these. -/
theorem Ledger.perm {p : ProxySocket} {early reqs lost : List QByteArray}
    (ledger : Ledger p early reqs lost) :
    (p.socket.written ++ p.waiting ++ lost).Perm reqs := by
  cases ledger with
  | connecting state stays written =>
      rw [ProxySocket.waiting, if_pos (Or.inl state), written, List.append_nil]
      exact List.perm_append_singleton ..
  | connected state stays written =>
      rw [ProxySocket.waiting, if_neg (by simp [state]), written, List.append_nil, List.append_nil]
      exact List.perm_middle
  | ended state goes written =>
      rw [ProxySocket.waiting, if_neg (by simp [state, goes]), written, List.append_nil]
      exact List.perm_middle.append_right _
  | failed state stays written =>
      rw [ProxySocket.waiting, if_pos (Or.inr ⟨state, stays⟩), written, List.append_assoc]
      exact List.perm_middle

theorem prefix_cons_self_iff {α : Type} (x : α) (xs ys : List α) :
    xs <+: x :: (xs ++ ys) ↔ ∀ y ∈ xs, y = x := by
  induction xs generalizing x with
  | nil => simp
  | cons z xs ih =>
      rw [List.cons_append, List.cons_prefix_cons, List.forall_mem_cons]
      refine and_congr_right fun same => ?_
      rw [ih, same]

theorem prefix_shift_iff {α : Type} (x : α) (xs ys zs : List α) :
    xs ++ x :: ys <+: x :: (xs ++ (ys ++ zs)) ↔ ∀ y ∈ xs, y = x := by
  induction xs generalizing x with
  | nil => simp
  | cons z xs ih =>
      rw [List.cons_append, List.cons_append, List.cons_prefix_cons, List.forall_mem_cons]
      refine and_congr_right fun same => ?_
      subst same
      exact ih z

/-- The requests are sent in the order in which they came exactly when the early ones are copies of
the first one. -/
theorem Ledger.prefix_iff {p : ProxySocket} {early reqs lost : List QByteArray}
    (ledger : Ledger p early reqs lost) :
    p.socket.written <+: reqs ↔ ∀ d ∈ early, d = p.reqData := by
  cases ledger with
  | connecting state stays written =>
      have shape := prefix_cons_self_iff p.reqData early []
      rw [List.append_nil] at shape
      rw [written, shape]
  | @connected late state stays written =>
      have shape := prefix_shift_iff p.reqData early late []
      rw [List.append_nil] at shape
      rw [written, shape]
  | ended state goes written => rw [written, List.append_assoc, prefix_shift_iff]
  | failed state stays written => rw [written, prefix_cons_self_iff]

namespace Client

variable {t : QtText} {c : Client} {accepted : Bool} {as : List (QNetworkProxy × ClientEvent)}

theorem booked_run (ran : run (step t) (incoming accepted) as = some c) :
    Booked t c (history (step t) (incoming accepted) as) := by
  have booked := run_keeps_history (Booked t) (fun _ _ _ _ booked stepped =>
    booked_step booked stepped) (booked_incoming accepted) ran
  exact booked

/-- In every run of a client, each request that was read for an upstream socket is in exactly one
place: the socket has taken it, or it waits in `reqData`, or the socket, being without a connection,
refused it. What is taken or waits while the socket connects is not sent when it fails to. -/
theorem each_request_once (ran : run (step t) (incoming accepted) as = some c) {k : ℕ}
    {p : ProxySocket} (here : c.children[k]? = some p) (plain : p.https = false) :
    (p.socket.written ++ p.waiting ++
        refusedBy t k (history (step t) (incoming accepted) as)).Perm
      (requestsFor t k (history (step t) (incoming accepted) as)) :=
  ((booked_run ran).ledger k p here plain).perm

theorem passedOn_of_handed {c c' : Client} {up : QNetworkProxy} {e : ClientEvent} (inv : c.Inv)
    (stepped : c.step t (up, e) = some c') {k : ℕ} {p : ProxySocket}
    (there : c'.children[k]? = some p) {d : QByteArray} (mem : d ∈ handed t k (c, up, e)) :
    passedOn t (c, up, e) = some (p.host, p.port, d) ∧ p.https = false := by
  obtain ⟨rfl, reads, host, port, reqData, asked, mine, only⟩ :=
    handed_ne_nil (List.ne_nil_of_mem mem)
  rw [only, List.mem_singleton] at mem
  subst mem
  have passed : passedOn t (c, up, .readyRead) = some (host, port, d) := by
    simp [passedOn, reads, asked]
  rw [passed]
  rw [socketFor] at mine
  cases found : c.findChild (key host port) with
  | some j =>
      rw [found, Option.getD_some] at mine
      subst mine
      obtain ⟨q, here, -, name⟩ := findChild_eq_some found
      obtain ⟨q', there', same⟩ := purpose_step inv stepped here
      rw [← Option.some.inj (there.symm.trans there')] at same
      have named := inv.named j q here
      cases https : q.https with
      | true =>
          rw [https, if_pos rfl, name] at named
          exact absurd named (key_ne_empty host port)
      | false =>
          rw [https, if_neg (by simp), name, key_inj] at named
          have sameHttps : p.https = q.https := congrArg (·.2.2.1) same
          have sameHost : p.host = q.host := congrArg (·.2.2.2.1) same
          have samePort : p.port = q.port := congrArg (·.2.2.2.2.1) same
          rw [sameHttps, sameHost, samePort, named.1, named.2]
          exact ⟨rfl, https⟩
  | none =>
      rw [found, Option.getD_none] at mine
      have missing : c.children[k]? = none := by
        rw [← mine]
        exact List.getElem?_eq_none (le_refl _)
      obtain ⟨-, -, -, opens⟩ := opened_step inv stepped missing there
      cases opens with
      | plain other none =>
          obtain ⟨rfl, rfl, -⟩ := Request.plain.inj (asked.symm.trans other)
          exact ⟨rfl, rfl⟩
      | tunnel other => exact absurd (asked.symm.trans other) (by simp)

/-- In every run of a client, a live plain socket is the only one for its host and port, and all
that it has sent was asked for by its client, of that host and port. -/
theorem sent_to_server (ran : run (step t) (incoming accepted) as = some c) {k : ℕ}
    {p : ProxySocket} (here : c.children[k]? = some p) (plain : p.https = false) :
    (∀ d ∈ p.socket.written, ∃ h ∈ history (step t) (incoming accepted) as,
        passedOn t h = some (p.host, p.port, d)) ∧
      (p.deleted = false → ∀ (j : ℕ) (q : ProxySocket), c.children[j]? = some q →
        q.https = false → q.deleted = false → q.host = p.host → q.port = p.port → j = k) := by
  have start : Booked t (incoming accepted) [] ∧ ∀ (k : ℕ) (p : ProxySocket),
      (incoming accepted).children[k]? = some p → ∀ d ∈ requestsFor t k [],
        ∃ h ∈ ([] : List (Client × QNetworkProxy × ClientEvent)),
          passedOn t h = some (p.host, p.port, d) :=
    ⟨booked_incoming accepted, fun k p here => absurd here (by simp [incoming])⟩
  have all := run_keeps_history (fun c past => Booked t c past ∧
    ∀ (k : ℕ) (p : ProxySocket), c.children[k]? = some p → ∀ d ∈ requestsFor t k past,
      ∃ h ∈ past, passedOn t h = some (p.host, p.port, d)) ?_ start ran
  · obtain ⟨booked, asked⟩ := all
    constructor
    · intro d sent
      have once := ((booked_run ran).ledger k p here plain).perm
      have inRequests := once.subset (List.mem_append_left _ (List.mem_append_left _ sent))
      exact asked k p here d inRequests
    · intro live j q there plainQ liveQ host port
      have inv := booked.inv
      have nameP := inv.named k p here
      have nameQ := inv.named j q there
      rw [if_neg (by simp [plain])] at nameP
      rw [if_neg (by simp [plainQ]), host, port, ← nameP] at nameQ
      exact inv.unique j k q p there here liveQ live plainQ nameQ
  · rintro u past ⟨up, e⟩ u' ⟨booked, asked⟩ stepped
    refine ⟨booked_step booked stepped, fun k p there d mem => ?_⟩
    rw [requestsFor_concat, List.mem_append] at mem
    rcases mem with old | new
    · cases was : u.children[k]? with
      | none =>
          rw [(booked.none k was).2.1] at old
          exact absurd old List.not_mem_nil
      | some q =>
          obtain ⟨p', there', same⟩ := purpose_step booked.inv stepped was
          rw [← Option.some.inj (there.symm.trans there')] at same
          obtain ⟨h, inPast, passed⟩ := asked k q was d old
          have sameHost : p.host = q.host := congrArg (·.2.2.2.1) same
          have samePort : p.port = q.port := congrArg (·.2.2.2.2.1) same
          refine ⟨h, List.mem_append_left _ inPast, ?_⟩
          rw [passed, sameHost, samePort]
    · have passed := (passedOn_of_handed booked.inv stepped there new).1
      exact ⟨_, List.mem_append_right _ (List.mem_singleton.mpr rfl), passed⟩

/-- An upstream socket sends the requests in the order in which the client made them exactly when
each of those that it was handed before it was connected is the same, byte for byte, as the one that
it was opened for. -/
theorem in_order_iff (ran : run (step t) (incoming accepted) as = some c) {k : ℕ}
    {p : ProxySocket} (here : c.children[k]? = some p) (plain : p.https = false) :
    p.socket.written <+: requestsFor t k (history (step t) (incoming accepted) as) ↔
      ∀ d ∈ earlyFor t k (history (step t) (incoming accepted) as), d = p.reqData :=
  ((booked_run ran).ledger k p here plain).prefix_iff

section Pipelined

def plainUrl : QtText :=
  .ascii (toUtf8 "http://a/")
    { isValid := true, host := "a", port := none, path := "/", query := none }

def localProxy : QNetworkProxy := { hostName := "127.0.0.1", port := 1080 }

/-- Two requests to one server that are read before its socket is connected. -/
def pipelined : List (QNetworkProxy × ClientEvent) :=
  [(localProxy, .receive (toUtf8 "GET http://a/ 1\r\n")), (localProxy, .readyRead),
    (localProxy, .receive (toUtf8 "PUT http://a/ 1\r\n")), (localProxy, .readyRead),
    (localProxy, .proxySocket 0 .connected)]

def pipelinedClient : Client where
  socket := { state := .connected }
  readyRead := [.onSocketReadyRead]
  children := [{ ProxySocket.plain localProxy "a" 80 (toUtf8 "GET / 1\r\n") with
    socket := { state := .connected,
                written := [toUtf8 "PUT / 1\r\n", toUtf8 "GET / 1\r\n"] } }]

theorem run_pipelined : run (step plainUrl) (incoming true) pipelined = some pipelinedClient := by
  decide

theorem in_order_iff_pipelined :
    ¬ [toUtf8 "PUT / 1\r\n", toUtf8 "GET / 1\r\n"] <+:
      requestsFor plainUrl 0 (history (step plainUrl) (incoming true) pipelined) := by
  have exact_ := in_order_iff (k := 0) run_pipelined rfl rfl
  exact mt exact_.mp (by decide)

theorem each_request_once_pipelined :
    [toUtf8 "PUT / 1\r\n", toUtf8 "GET / 1\r\n"].Perm
      (requestsFor plainUrl 0 (history (step plainUrl) (incoming true) pipelined)) :=
  each_request_once (k := 0) run_pipelined rfl rfl

theorem sent_to_server_pipelined :
    ∃ h ∈ history (step plainUrl) (incoming true) pipelined,
      passedOn plainUrl h = some ("a", 80, toUtf8 "PUT / 1\r\n") := by
  have asked := (sent_to_server (k := 0) run_pipelined rfl rfl).1
  exact asked _ (List.mem_cons_self ..)

end Pipelined

end Client

end QvPlugin.Socksify
