import QvPlugin.Socksify.Failure

/-!
What a client is sent: the bytes of its upstream sockets, each socket's in order and complete but
for what it has not read yet, and the header of each tunnel ahead of the tunnel's bytes.
-/

set_option autoImplicit false
set_option relaxedAutoImplicit false

namespace QvPlugin.Socksify

open Lib Qt Utils

namespace Client

variable {t : QtText} {c c' : Client} {up : QNetworkProxy} {e : ClientEvent}

def arrivedAt (k : ℕ) : Client × QNetworkProxy × ClientEvent → QByteArray
  | (_, _, .proxySocket j (.receive data)) => if j = k then data else []
  | _ => []

def relayedFrom (k : ℕ) (parts : List (Origin × QByteArray)) : QByteArray :=
  (parts.filter fun a => a.1 = .relayed k).flatMap Prod.snd

def about (k : ℕ) (parts : List (Origin × QByteArray)) : List (Origin × QByteArray) :=
  parts.filter fun a => a.1 = .header k ∨ a.1 = .relayed k

theorem relayedFrom_append (k : ℕ) (xs ys : List (Origin × QByteArray)) :
    relayedFrom k (xs ++ ys) = relayedFrom k xs ++ relayedFrom k ys := by
  simp [relayedFrom]

theorem about_append (k : ℕ) (xs ys : List (Origin × QByteArray)) :
    about k (xs ++ ys) = about k xs ++ about k ys := by
  simp [about]

section Written

theorem written_foldl_write (s : QAbstractSocket) (data : List (Origin × QByteArray)) :
    (data.foldl (fun s a => s.write a.2) s).written =
      s.written ++ if s.Accepts then data.map Prod.snd else [] := by
  induction data generalizing s with
  | nil => simp
  | cons a data ih =>
      have same : (s.write a.2).Accepts ↔ s.Accepts :=
        QAbstractSocket.accepts_congr (by simp) (by simp)
      rw [List.foldl_cons, ih, QAbstractSocket.written_write]
      by_cases accepts : s.Accepts
      · simp [accepts, same]
      · simp [accepts, same]

/-- Nothing but the answers is written to the client. -/
theorem written_step (inv : c.Inv) (stepped : c.step t (up, e) = some c') :
    c'.socket.written = c.socket.written ++
      if c.socket.Accepts then (answers (c, up, e)).map Prod.snd else [] := by
  obtain ⟨-, happened⟩ := step_eq_some.mp stepped
  have quiet (none : answers (c, up, e) = []) (same : c'.socket.written = c.socket.written) :
      c'.socket.written = c.socket.written ++
        if c.socket.Accepts then (answers (c, up, e)).map Prod.snd else [] := by
    rw [none, same]
    simp
  cases e with
  | receive data =>
      cases happened
      exact quiet rfl rfl
  | errorOccurred =>
      cases happened
      exact quiet rfl rfl
  | disconnected =>
      cases happened
      exact quiet rfl rfl
  | readyRead =>
      refine quiet rfl ?_
      rcases inv.slots with http | noHttp
      · rw [event_readyRead_http http, Option.some.injEq] at happened
        have asks := asks_onSocketReadyRead t up c
        rw [happened] at asks
        cases asks with
        | invalid asked => exact QAbstractSocket.written_disconnectFromHost _
        | reused asked found => rfl
        | opened opens => rfl
      · cases happened
        rw [socket_callStreams up noHttp inv.openStreams]
        split <;> rfl
  | proxySocket k e =>
      obtain ⟨p, here, -, -, rfl⟩ := event_proxySocket.mp happened
      rw [socket_proxySocketEvent inv.clientWritable here up e, written_foldl_write]

theorem unconnected_step (inv : c.Inv) (stepped : c.step t (up, e) = some c')
    (gone : c.socket.state = .unconnected) : c'.socket.state = .unconnected := by
  obtain ⟨can, happened⟩ := step_eq_some.mp stepped
  cases e with
  | receive data => exact absurd (gone.symm.trans can) (by decide)
  | readyRead => exact absurd (gone.symm.trans can) (by decide)
  | errorOccurred =>
      cases happened
      exact gone
  | disconnected =>
      cases happened
      rfl
  | proxySocket k e =>
      obtain ⟨p, here, -, -, rfl⟩ := event_proxySocket.mp happened
      rw [socket_proxySocketEvent inv.clientWritable here up e, (open_foldl_write _ _).1]
      exact gone

end Written

section Arrived

theorem incoming_callStreams (up : QNetworkProxy) {slots : List ReadSlot}
    (noHttp : ReadSlot.onSocketReadyRead ∉ slots) {c : Client} {k : ℕ} {p : ProxySocket}
    (here : c.children[k]? = some p) :
    ∃ q, (slots.foldl (callSlot t up) c).children[k]? = some q ∧
      q.socket.incoming = p.socket.incoming ∧ q.socket.state = p.socket.state := by
  induction slots generalizing c p with
  | nil => exact ⟨p, here, rfl, rfl⟩
  | cons slot slots ih =>
      rw [List.mem_cons, not_or] at noHttp
      cases slot with
      | onSocketReadyRead => exact absurd rfl noHttp.1
      | stream j =>
          by_cases hit : j = k
          · subst hit
            have there : (c.streamed j .onSocketAReadyRead).children[j]? =
                some { p with socket := (pass c.socket p.socket).2 } := by
              rw [streamed_of_some here, getElem?_modifyChild]
              simp [here, SocketStream.onSocketAReadyRead]
            obtain ⟨q, last, same, state⟩ := ih noHttp.2 there
            exact ⟨q, last, same.trans (SocketStream.incoming_pass_dest ..),
              state.trans (pass_fixed ..).2.1⟩
          · have there := (children_streamed_of_ne hit .onSocketAReadyRead).trans here
            exact ih noHttp.2 there

theorem about_answers_of_ne {j k : ℕ} (other : j ≠ k) (e : ProxySocketEvent) :
    about k (answers (c, up, .proxySocket j e)) = [] := by
  cases e with
  | connected =>
      simp only [answers]
      split
      · split <;> simp [about, other]
      · rfl
  | readyRead =>
      simp only [answers]
      split
      · split <;> simp [about, other]
      · rfl
  | _ => rfl

theorem relayedFrom_eq_about (k : ℕ) (parts : List (Origin × QByteArray)) :
    relayedFrom k parts = relayedFrom k (about k parts) := by
  rw [relayedFrom, relayedFrom, about, List.filter_filter]
  congr 1
  apply List.filter_congr
  intro a _
  by_cases mine : a.1 = .relayed k <;> simp [mine]

theorem arrived_event (open_ : c.socket.isWritable = true) {k : ℕ} {p : ProxySocket}
    (here : c.children[k]? = some p) (up : QNetworkProxy) (e : ProxySocketEvent) :
    ∃ q, (c.proxySocketEvent k p e).children[k]? = some q ∧
      p.socket.incoming ++ arrivedAt k (c, up, .proxySocket k e) =
        relayedFrom k (answers (c, up, .proxySocket k e)) ++ q.socket.incoming := by
  have self {d : Client} {q : ProxySocket} (there : d.children[k]? = some q)
      (f : ProxySocket → ProxySocket) : (d.modifyChild k f).children[k]? = some (f q) := by
    rw [getElem?_modifyChild, there, Option.map_some, if_pos rfl]
  cases e with
  | connected =>
      by_cases https : p.https = true
      · refine ⟨p.setState .connected, ?_, ?_⟩
        · simp only [proxySocketEvent, https]
          exact self here _
        · simp [arrivedAt, answers, here, https, relayedFrom, ProxySocket.setState]
      · refine ⟨(p.setState .connected).write p.reqData, ?_, ?_⟩
        · simp only [proxySocketEvent, https]
          exact self (self here _) _
        · simp [arrivedAt, answers, here, https, relayedFrom, ProxySocket.setState,
            ProxySocket.write]
  | errorOccurred =>
      simp only [proxySocketEvent]
      split
      · exact ⟨_, self here _, by simp [arrivedAt, answers, relayedFrom, ProxySocket.setState]⟩
      · exact ⟨p, here, by simp [arrivedAt, answers, relayedFrom]⟩
  | receive data =>
      exact ⟨_, self here _, by simp [arrivedAt, answers, relayedFrom]⟩
  | readyRead =>
      by_cases https : p.https = true
      · by_cases stream : ReadSlot.stream k ∈ c.readyRead
        · refine ⟨p.readAll, ?_, ?_⟩
          · simp only [proxySocketEvent, https, stream, if_true]
            rw [streamed_of_some here, SocketStream.onSocketBReadyRead, pass_of_writable open_]
            exact self here _
          · simp [arrivedAt, answers, here, https, stream, relayedFrom, ProxySocket.readAll]
        · refine ⟨p, ?_, ?_⟩
          · simp only [proxySocketEvent, https, stream, if_true, if_false]
            exact here
          · simp [arrivedAt, answers, here, https, stream, relayedFrom]
      · refine ⟨p.readAll, ?_, ?_⟩
        · simp only [proxySocketEvent, https]
          exact self here _
        · simp [arrivedAt, answers, here, https, relayedFrom, ProxySocket.readAll]
  | disconnected =>
      exact ⟨_, self here _, by
        simp [arrivedAt, answers, relayedFrom, QAbstractSocket.disconnected]⟩
  | deferredDelete => exact ⟨_, self here _, by simp [arrivedAt, answers, relayedFrom]⟩

/-- The upstream socket reads in order what arrives, and passes on all it reads. -/
theorem arrived_step (inv : c.Inv) (stepped : c.step t (up, e) = some c') {k : ℕ}
    {p : ProxySocket} (here : c.children[k]? = some p) :
    ∃ q, c'.children[k]? = some q ∧
      p.socket.incoming ++ arrivedAt k (c, up, e) =
        relayedFrom k (answers (c, up, e)) ++ q.socket.incoming := by
  obtain ⟨-, happened⟩ := step_eq_some.mp stepped
  cases e with
  | receive data =>
      cases happened
      exact ⟨p, here, by simp [arrivedAt, answers, relayedFrom]⟩
  | errorOccurred =>
      cases happened
      exact ⟨p, here, by simp [arrivedAt, answers, relayedFrom]⟩
  | disconnected =>
      cases happened
      exact ⟨p, here, by simp [arrivedAt, answers, relayedFrom]⟩
  | readyRead =>
      have quiet {d : Client} {q : ProxySocket} (there : d.children[k]? = some q)
          (same : q.socket.incoming = p.socket.incoming) : ∃ q, d.children[k]? = some q ∧
            p.socket.incoming ++ arrivedAt k (c, up, .readyRead) =
              relayedFrom k (answers (c, up, .readyRead)) ++ q.socket.incoming :=
        ⟨q, there, by simp [arrivedAt, answers, relayedFrom, same]⟩
      rcases inv.slots with http | noHttp
      · rw [event_readyRead_http http, Option.some.injEq] at happened
        have asks := asks_onSocketReadyRead t up c
        rw [happened] at asks
        cases asks with
        | invalid asked => exact quiet here rfl
        | @reused host port reqData j asked found =>
            by_cases hit : j = k
            · refine quiet (q := p.write reqData) ?_ (QAbstractSocket.incoming_write ..)
              rw [getElem?_modifyChild]
              simp [here, hit]
            · refine quiet (q := p) ?_ rfl
              rw [getElem?_modifyChild]
              simp [here, hit]
        | opened opens =>
            have inside := (List.getElem?_eq_some_iff.mp here).1
            exact quiet ((List.getElem?_append_left inside).trans here) rfl
      · cases happened
        obtain ⟨q, there, same, -⟩ := incoming_callStreams (t := t) up noHttp here
        exact quiet there same
  | proxySocket j e =>
      obtain ⟨p', here', -, can, rfl⟩ := event_proxySocket.mp happened
      by_cases hit : j = k
      · subst hit
        have same : p = p' := Option.some.inj (here.symm.trans here')
        subst same
        exact arrived_event inv.clientWritable here up e
      · refine ⟨p, (children_proxySocketEvent_of_ne hit p' e).trans here, ?_⟩
        have none : arrivedAt k (c, up, .proxySocket j e) = [] := by
          cases e <;> simp [arrivedAt, hit]
        rw [none, relayedFrom_eq_about, about_answers_of_ne hit]
        simp [relayedFrom]

end Arrived

section Header

/-- What a client is sent on account of a tunnel: nothing before there is a connection, and then the
header and the bytes from upstream after it. -/
structure TunnelLog (k : ℕ) (state : SocketState) (parts : List (Origin × QByteArray)) : Prop where
  before : state = .connecting → parts = []
  during : state = .connected → parts ≠ []
  shape : parts = [] ∨ ∃ rest, parts = (.header k, httpsHeader) :: rest ∧
    ∀ a ∈ rest, a.1 = .relayed k

theorem TunnelLog.relayed {k : ℕ} {parts : List (Origin × QByteArray)}
    (log : TunnelLog k .connected parts) (data : QByteArray) :
    TunnelLog k .connected (parts ++ [(.relayed k, data)]) where
  before made := absurd made (by decide)
  during _ := by simp
  shape := by
    rcases log.shape with none | ⟨rest, rfl, relays⟩
    · exact absurd none (log.during rfl)
    · refine Or.inr ⟨rest ++ [(.relayed k, data)], rfl, fun a mem => ?_⟩
      rcases List.mem_append.mp mem with old | new
      · exact relays a old
      · rw [List.mem_singleton.mp new]

theorem TunnelLog.quiet {k : ℕ} {state state' : SocketState} {parts : List (Origin × QByteArray)}
    (log : TunnelLog k state parts) (connecting : state' = .connecting → state = .connecting)
    (connected : state' = .connected → state = .connected) : TunnelLog k state' parts :=
  ⟨log.before ∘ connecting, log.during ∘ connected, log.shape⟩

/-- What an event does to the log of a tunnel. -/
theorem tunnelLog_step (inv : c.Inv) (stepped : c.step t (up, e) = some c') {k : ℕ}
    {p : ProxySocket} (here : c.children[k]? = some p) (https : p.https = true)
    {parts : List (Origin × QByteArray)} (log : TunnelLog k p.socket.state (about k parts)) :
    ∃ q, c'.children[k]? = some q ∧
      TunnelLog k q.socket.state (about k (parts ++ answers (c, up, e))) := by
  obtain ⟨-, happened⟩ := step_eq_some.mp stepped
  have quiet {d : Client} {q : ProxySocket} (none : about k (answers (c, up, e)) = [])
      (there : d.children[k]? = some q)
      (connecting : q.socket.state = .connecting → p.socket.state = .connecting)
      (connected : q.socket.state = .connected → p.socket.state = .connected) :
      ∃ q, d.children[k]? = some q ∧
        TunnelLog k q.socket.state (about k (parts ++ answers (c, up, e))) := by
    refine ⟨q, there, ?_⟩
    rw [about_append, none, List.append_nil]
    exact log.quiet connecting connected
  cases e with
  | receive data =>
      cases happened
      exact quiet rfl here id id
  | errorOccurred =>
      cases happened
      exact quiet rfl here id id
  | disconnected =>
      cases happened
      exact quiet rfl here id id
  | readyRead =>
      rcases inv.slots with http | noHttp
      · rw [event_readyRead_http http, Option.some.injEq] at happened
        have asks := asks_onSocketReadyRead t up c
        rw [happened] at asks
        cases asks with
        | invalid asked => exact quiet rfl here id id
        | @reused host port reqData j asked found =>
            have there : ({ c with socket := c.socket.readAll }.modifyChild j
                (·.write reqData)).children[k]? =
                some (if j = k then p.write reqData else p) := by
              rw [getElem?_modifyChild]
              simp [here]
            have state : (if j = k then p.write reqData else p).socket.state = p.socket.state := by
              split
              · exact QAbstractSocket.state_write ..
              · rfl
            exact quiet rfl there state.symm.trans state.symm.trans
        | opened opens =>
            have inside := (List.getElem?_eq_some_iff.mp here).1
            exact quiet rfl ((List.getElem?_append_left inside).trans here) id id
      · cases happened
        obtain ⟨q, there, -, state⟩ := incoming_callStreams (t := t) up noHttp here
        exact quiet rfl there state.symm.trans state.symm.trans
  | proxySocket j e =>
      obtain ⟨p', here', -, can, rfl⟩ := event_proxySocket.mp happened
      by_cases hit : j = k
      · subst hit
        have same : p = p' := Option.some.inj (here.symm.trans here')
        subst same
        have self {d : Client} {q : ProxySocket} (there : d.children[j]? = some q)
            (f : ProxySocket → ProxySocket) : (d.modifyChild j f).children[j]? = some (f q) := by
          rw [getElem?_modifyChild, there, Option.map_some, if_pos rfl]
        cases e with
        | connected =>
            have nothing := log.before can
            have header : about j (answers (c, up, .proxySocket j .connected)) =
                [(.header j, httpsHeader)] := by
              simp [answers, here, https, about]
            refine ⟨p.setState .connected, ?_, ?_⟩
            · simp only [proxySocketEvent, https]
              exact self here _
            · rw [about_append, nothing, header]
              exact ⟨fun made => absurd made (by simp [ProxySocket.setState]), fun _ => by simp,
                Or.inr ⟨[], rfl, by simp⟩⟩
        | errorOccurred =>
            simp only [proxySocketEvent]
            split
            · exact quiet rfl (self here _) (by simp [ProxySocket.setState])
                (by simp [ProxySocket.setState])
            · exact quiet rfl here id id
        | receive data => exact quiet rfl (self here _) id id
        | readyRead =>
            have state : p.socket.state = .connected := can
            by_cases stream : ReadSlot.stream j ∈ c.readyRead
            · have relay : about j (answers (c, up, .proxySocket j .readyRead)) =
                  [(.relayed j, p.socket.incoming)] := by
                simp [answers, here, stream, about]
              rw [state] at log
              refine ⟨p.readAll, ?_, ?_⟩
              · simp only [proxySocketEvent, https, stream, if_true]
                rw [streamed_of_some here, SocketStream.onSocketBReadyRead,
                  pass_of_writable inv.clientWritable]
                exact self here _
              · have stays : p.readAll.socket.state = .connected := state
                rw [about_append, relay, stays]
                exact log.relayed _
            · have none : about j (answers (c, up, .proxySocket j .readyRead)) = [] := by
                simp [answers, here, https, stream, about]
              refine quiet none ?_ id id
              simp only [proxySocketEvent, https, stream, if_true, if_false]
              exact here
        | disconnected =>
            exact quiet rfl (self here _) (by simp [QAbstractSocket.disconnected])
              (by simp [QAbstractSocket.disconnected])
        | deferredDelete => exact quiet rfl (self here _) id id
      · exact quiet (about_answers_of_ne hit e)
          ((children_proxySocketEvent_of_ne hit p' e).trans here) id id

end Header

section Run

def answered (past : List (Client × QNetworkProxy × ClientEvent)) : List (Origin × QByteArray) :=
  past.flatMap answers

/-- The client's side of a history: what was written to it, what the upstream sockets have passed on
and the logs of the tunnels. -/
structure Delivered (c : Client) (past : List (Client × QNetworkProxy × ClientEvent)) : Prop where
  inv : c.Inv
  written : c.socket.state ≠ .unconnected → c.socket.written = (answered past).map Prod.snd
  arrived : ∀ (k : ℕ) (p : ProxySocket), c.children[k]? = some p →
    past.flatMap (arrivedAt k) = relayedFrom k (answered past) ++ p.socket.incoming
  tunnel : ∀ (k : ℕ) (p : ProxySocket), c.children[k]? = some p → p.https = true →
    TunnelLog k p.socket.state (about k (answered past))
  none : ∀ k : ℕ, c.children[k]? = none →
    past.flatMap (arrivedAt k) = [] ∧ about k (answered past) = []

theorem delivered_incoming (accepted : Bool) : Delivered (incoming accepted) [] where
  inv := inv_incoming accepted
  written _ := rfl
  arrived k p here := absurd here (by simp [incoming])
  tunnel k p here := absurd here (by simp [incoming])
  none k _ := ⟨rfl, rfl⟩

theorem quiet_of_missing (stepped : c.step t (up, e) = some c') {k : ℕ}
    (missing : c.children[k]? = none) :
    arrivedAt k (c, up, e) = [] ∧ about k (answers (c, up, e)) = [] := by
  obtain ⟨-, happened⟩ := step_eq_some.mp stepped
  cases e with
  | proxySocket j e =>
      obtain ⟨p, here, -⟩ := event_proxySocket.mp happened
      have apart : j ≠ k := by
        rintro rfl
        exact absurd (missing.symm.trans here) (by simp)
      refine ⟨?_, about_answers_of_ne apart e⟩
      cases e <;> simp [arrivedAt, apart]
  | _ => exact ⟨rfl, rfl⟩

theorem answered_concat (past : List (Client × QNetworkProxy × ClientEvent))
    (h : Client × QNetworkProxy × ClientEvent) :
    answered (past ++ [h]) = answered past ++ answers h := by
  simp [answered]

theorem delivered_step {past : List (Client × QNetworkProxy × ClientEvent)}
    (delivered : Delivered c past) (stepped : c.step t (up, e) = some c') :
    Delivered c' (past ++ [(c, up, e)]) := by
  have inv := delivered.inv
  have arrivals (k : ℕ) : (past ++ [(c, up, e)]).flatMap (arrivedAt k) =
      past.flatMap (arrivedAt k) ++ arrivedAt k (c, up, e) := by simp
  refine ⟨inv_step inv stepped, fun open_ => ?_, fun k q there => ?_, fun k q there https => ?_,
    fun k missing => ?_⟩
  · have before : c.socket.state ≠ .unconnected :=
      fun gone => open_ (unconnected_step inv stepped gone)
    have accepts : c.socket.Accepts := ⟨inv.clientWritable, before⟩
    rw [written_step inv stepped, if_pos accepts, delivered.written before, answered_concat,
      List.map_append]
  · rw [arrivals, answered_concat, relayedFrom_append]
    cases here : c.children[k]? with
    | some p =>
        obtain ⟨q', there', moved⟩ := arrived_step inv stepped here
        have same : q = q' := Option.some.inj (there.symm.trans there')
        rw [delivered.arrived k p here, List.append_assoc, moved, same, List.append_assoc]
    | none =>
        obtain ⟨noArrival, noAnswer⟩ := quiet_of_missing stepped here
        obtain ⟨nothing, silence⟩ := delivered.none k here
        obtain ⟨-, -, -, opens⟩ := opened_step inv stepped here there
        have unread : q.socket.incoming = [] := by
          cases opens <;> rfl
        rw [nothing, noArrival, relayedFrom_eq_about, silence, relayedFrom_eq_about k (answers _),
          noAnswer, unread]
        rfl
  · rw [answered_concat]
    cases here : c.children[k]? with
    | some p =>
        obtain ⟨p', there', same⟩ := purpose_step inv stepped here
        rw [← Option.some.inj (there.symm.trans there')] at same
        have httpsP : p.https = true := (congrArg (·.2.2.1) same).symm.trans https
        obtain ⟨q', there'', log⟩ :=
          tunnelLog_step inv stepped here httpsP (delivered.tunnel k p here httpsP)
        rw [← Option.some.inj (there.symm.trans there'')] at log
        exact log
    | none =>
        obtain ⟨-, noAnswer⟩ := quiet_of_missing stepped here
        obtain ⟨-, silence⟩ := delivered.none k here
        obtain ⟨-, -, -, opens⟩ := opened_step inv stepped here there
        rw [about_append, silence, noAnswer]
        cases opens with
        | plain asked missing => exact absurd https (by simp [ProxySocket.plain])
        | tunnel asked =>
            exact ⟨fun _ => rfl, fun made => absurd made (by simp [ProxySocket.tunnel]),
              Or.inl rfl⟩
  · have before : c.children[k]? = Option.none := by
      cases here : c.children[k]? with
      | none => rfl
      | some p =>
          obtain ⟨q, there, -⟩ := purpose_step inv stepped here
          exact absurd (missing.symm.trans there) (by simp)
    obtain ⟨noArrival, noAnswer⟩ := quiet_of_missing stepped before
    obtain ⟨nothing, silence⟩ := delivered.none k before
    rw [arrivals, answered_concat, about_append, nothing, silence, noArrival, noAnswer]
    exact ⟨rfl, rfl⟩

/-- In every run of a client, and in every order of the events, the client is sent an interleaving
of what its upstream sockets sent: of each socket all the bytes that arrived but those it has not
read yet, in order and once, and of each tunnel one header, ahead of its bytes. -/
theorem answers_delivered {accepted : Bool} {as : List (QNetworkProxy × ClientEvent)}
    (ran : run (step t) (incoming accepted) as = some c) (open_ : c.socket.state ≠ .unconnected) :
    c.socket.written = (answered (history (step t) (incoming accepted) as)).map Prod.snd ∧
      ∀ (k : ℕ) (p : ProxySocket), c.children[k]? = some p →
        (history (step t) (incoming accepted) as).flatMap (arrivedAt k) =
            relayedFrom k (answered (history (step t) (incoming accepted) as)) ++
              p.socket.incoming ∧
          (p.https = true →
            about k (answered (history (step t) (incoming accepted) as)) = [] ∨
              ∃ rest, about k (answered (history (step t) (incoming accepted) as)) =
                (.header k, httpsHeader) :: rest ∧ ∀ a ∈ rest, a.1 = .relayed k) := by
  have delivered := run_keeps_history Delivered (fun _ _ _ _ delivered stepped =>
    delivered_step delivered stepped) (delivered_incoming accepted) ran
  exact ⟨delivered.written open_, fun k p here =>
    ⟨delivered.arrived k p here, fun https => (delivered.tunnel k p here https).shape⟩⟩

def tunnelling : List (QNetworkProxy × ClientEvent) :=
  [(localProxy, .receive (toUtf8 "CONNECT a:1 1\r\n")), (localProxy, .readyRead),
    (localProxy, .proxySocket 0 .connected), (localProxy, .proxySocket 0 (.receive [7])),
    (localProxy, .proxySocket 0 .readyRead)]

def tunnellingClient : Client where
  socket := { state := .connected, written := [httpsHeader, [7]] }
  readyRead := [.stream 0]
  children := [{ ProxySocket.tunnel localProxy "a" 1 with socket := { state := .connected } }]

theorem run_tunnelling :
    run (step plainUrl) (incoming true) tunnelling = some tunnellingClient := by
  decide

theorem answers_delivered_tunnelling :
    [httpsHeader, [7]] =
      (answered (history (step plainUrl) (incoming true) tunnelling)).map Prod.snd :=
  (answers_delivered run_tunnelling (by decide)).1

end Run

end Client

end QvPlugin.Socksify
