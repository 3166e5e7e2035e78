import QvPlugin.Socksify.Requests

/-!
How connections end: an upstream socket that could not connect stays with its client, and a client
is closed for data that is no request, and for nothing that happens upstream.
-/

set_option autoImplicit false
set_option relaxedAutoImplicit false

namespace QvPlugin.Socksify

open Lib Qt Utils

/-- An attempt to connect has failed: there is no connection, and there was none to end. -/
def ProxySocket.Failed (p : ProxySocket) : Prop :=
  p.socket.state = .unconnected ∧ p.socket.deleteLater = false

theorem ProxySocket.Failed.next {p : ProxySocket} (failed : p.Failed) (data : List QByteArray)
    {e : Option ProxySocketEvent} (can : ∀ e', e = some e' → p.Can e') : p.next data e = p := by
  have refuses : ¬ p.socket.Accepts := fun accepts => accepts.2 failed.1
  cases e with
  | none => exact foldl_write_of_not_accepts refuses data
  | some e =>
      have allowed := can e rfl
      cases e with
      | connected => exact absurd (failed.1.symm.trans allowed) (by decide)
      | errorOccurred =>
          rw [ProxySocket.next, if_neg]
          rw [failed.1]
          decide
      | receive data => exact absurd (failed.1.symm.trans allowed) (by decide)
      | readyRead => exact absurd (failed.1.symm.trans allowed) (by decide)
      | disconnected => exact absurd (failed.1.symm.trans allowed) (by decide)
      | deferredDelete => exact absurd (failed.2.symm.trans allowed) (by decide)

namespace Client

variable {t : QtText} {c c' : Client} {accepted : Bool}

theorem findChild_of_live (inv : c.Inv) {k : ℕ} {p : ProxySocket} (here : c.children[k]? = some p)
    (plain : p.https = false) (live : p.deleted = false) :
    c.findChild (key p.host p.port) = some k := by
  have name := inv.named k p here
  rw [if_neg (by simp [plain])] at name
  cases found : c.findChild (key p.host p.port) with
  | none => exact absurd name (findChild_eq_none found here live)
  | some j =>
      obtain ⟨q, there, liveQ, nameQ⟩ := findChild_eq_some found
      have same : k = j := inv.unique k j p q here there live liveQ plain (name.trans nameQ.symm)
      rw [same]

/-- A failed socket goes unchanged through an event, in which it refuses what it is handed. -/
theorem failed_step {up : QNetworkProxy} {e : ClientEvent} (inv : c.Inv)
    (stepped : c.step t (up, e) = some c') {k : ℕ} {p : ProxySocket}
    (here : c.children[k]? = some p) (plain : p.https = false) (live : p.deleted = false)
    (failed : p.Failed) :
    c'.children[k]? = some p ∧
      (∀ d, passedOn t (c, up, e) = some (p.host, p.port, d) → refused t k (c, up, e) = [d]) ∧
      ∀ a ∈ answers (c, up, e), a.1 ≠ .header k ∧ a.1 ≠ .relayed k := by
  obtain ⟨-, happened⟩ := step_eq_some.mp stepped
  refine ⟨?_, fun d passed => ?_, fun a mem => ?_⟩
  · rw [plain_step inv stepped here plain,
      failed.next _ fun e' mine => eventOf_can here happened mine]
  · have given : handed t k (c, up, e) = [d] := by
      rw [handed, passed]
      have target : c.socketFor p.host p.port = k := by
        rw [socketFor, findChild_of_live inv here plain live, Option.getD_some]
      exact if_pos target
    rw [refused, here, given]
    exact if_pos failed.1
  · cases e with
    | proxySocket j e =>
        obtain ⟨q, there, -, can, -⟩ := event_proxySocket.mp happened
        have other (made : q.socket.state = .connecting ∨ q.socket.state = .connected) :
            j ≠ k := by
          rintro rfl
          have same : p = q := Option.some.inj (here.symm.trans there)
          rw [← same, failed.1] at made
          exact absurd made (by decide)
        cases e with
        | connected =>
            have apart := other (Or.inl can)
            simp only [answers, there] at mem
            split at mem
            · rw [List.mem_singleton.mp mem]
              simp [apart]
            · exact absurd mem List.not_mem_nil
        | readyRead =>
            have apart := other (Or.inr can)
            simp only [answers, there] at mem
            split at mem
            · rw [List.mem_singleton.mp mem]
              simp [apart]
            · exact absurd mem List.not_mem_nil
        | _ => exact absurd mem List.not_mem_nil
    | _ => exact absurd mem List.not_mem_nil

/-- After an upstream socket has failed to connect, and for as long as its client lives, each
further request for its server is refused by that same socket, nothing is ever sent to the server,
and the client is told nothing. -/
theorem failed_forever {as bs : List (QNetworkProxy × ClientEvent)}
    (ran : run (step t) (incoming accepted) as = some c) {k : ℕ} {p : ProxySocket}
    (here : c.children[k]? = some p) (plain : p.https = false) (live : p.deleted = false)
    (failed : p.Failed) (more : run (step t) c bs = some c') :
    c'.children[k]? = some p ∧
      (∀ h ∈ history (step t) c bs, ∀ d, passedOn t h = some (p.host, p.port, d) →
        refused t k h = [d]) ∧
      ∀ h ∈ history (step t) c bs, ∀ a ∈ answers h, a.1 ≠ .header k ∧ a.1 ≠ .relayed k := by
  have inv := (booked_run ran).inv
  have kept := run_keeps_history (fun (c : Client) past => c.Inv ∧
    c.children[k]? = some p ∧
      (∀ h ∈ past, ∀ d, passedOn t h = some (p.host, p.port, d) → refused t k h = [d]) ∧
      ∀ h ∈ past, ∀ a ∈ answers h, a.1 ≠ .header k ∧ a.1 ≠ .relayed k) ?_
    ⟨inv, here, by simp, by simp⟩ more
  · exact kept.2
  · rintro u past ⟨up, e⟩ u' ⟨invU, hereU, refusals, silences⟩ stepped
    obtain ⟨there, refusal, silence⟩ := failed_step invU stepped hereU plain live failed
    refine ⟨inv_step invU stepped, there, fun h mem => ?_, fun h mem => ?_⟩
    · rcases List.mem_append.mp mem with old | new
      · exact refusals h old
      · rw [List.mem_singleton.mp new]
        exact refusal
    · rcases List.mem_append.mp mem with old | new
      · exact silences h old
      · rw [List.mem_singleton.mp new]
        exact silence

section Unreachable

def unreachable : List (QNetworkProxy × ClientEvent) :=
  [(localProxy, .receive (toUtf8 "GET http://a/ 1\r\n")), (localProxy, .readyRead),
    (localProxy, .proxySocket 0 .errorOccurred)]

def failedSocket : ProxySocket :=
  (ProxySocket.plain localProxy "a" 80 (toUtf8 "GET / 1\r\n")).setState .unconnected

def unreachableClient : Client where
  socket := { state := .connected }
  readyRead := [.onSocketReadyRead]
  children := [failedSocket]

theorem failed_forever_unreachable :
    ∃ c', run (step plainUrl) unreachableClient
        [(localProxy, .receive (toUtf8 "PUT http://a/ 1\r\n")), (localProxy, .readyRead)] = some c' ∧
      c'.children[0]? = some failedSocket := by
  have ran : run (step plainUrl) (incoming true) unreachable = some unreachableClient := by decide
  have more : run (step plainUrl) unreachableClient
      [(localProxy, .receive (toUtf8 "PUT http://a/ 1\r\n")), (localProxy, .readyRead)] =
        some unreachableClient := by decide
  exact ⟨_, more, (failed_forever (k := 0) ran rfl rfl rfl ⟨rfl, rfl⟩ more).1⟩

end Unreachable

section Closing

/-- The connection of the client itself ends, or data is read that is no request. -/
def Ends (t : QtText) : Client × QNetworkProxy × ClientEvent → Prop
  | (_, _, .errorOccurred) => True
  | (_, _, .disconnected) => True
  | (c, _, .readyRead) =>
      ReadSlot.onSocketReadyRead ∈ c.readyRead ∧ request t c.socket.incoming = .invalid
  | _ => False

def Open (c : Client) : Prop := c.socket.state = .connected ∧ c.socket.deleteLater = false

theorem open_foldl_write (s : QAbstractSocket) (data : List (Origin × QByteArray)) :
    (data.foldl (fun s a => s.write a.2) s).state = s.state ∧
      (data.foldl (fun s a => s.write a.2) s).deleteLater = s.deleteLater := by
  induction data generalizing s with
  | nil => exact ⟨rfl, rfl⟩
  | cons a data ih =>
      obtain ⟨state, goes⟩ := ih (s.write a.2)
      rw [List.foldl_cons, state, goes, QAbstractSocket.state_write,
        QAbstractSocket.deleteLater_write]
      exact ⟨rfl, rfl⟩

theorem open_step_iff {up : QNetworkProxy} {e : ClientEvent} (inv : c.Inv)
    (stepped : c.step t (up, e) = some c') : c'.Open ↔ c.Open ∧ ¬ Ends t (c, up, e) := by
  obtain ⟨can, happened⟩ := step_eq_some.mp stepped
  cases e with
  | receive data =>
      cases happened
      exact (and_iff_left id).symm
  | errorOccurred =>
      cases happened
      simp [Open, Ends]
  | disconnected =>
      cases happened
      simp [Open, Ends, QAbstractSocket.disconnected]
  | readyRead =>
      rcases inv.slots with http | noHttp
      · rw [event_readyRead_http http, Option.some.injEq] at happened
        have asks := asks_onSocketReadyRead t up c
        rw [happened] at asks
        have reads : ReadSlot.onSocketReadyRead ∈ c.readyRead := by simp [http]
        cases asks with
        | invalid asked =>
            have made : c.socket.readAll.state ≠ .unconnected := by
              have state : c.socket.state = .connected := can
              simp [state]
            have closes : c.socket.readAll.disconnectFromHost.state = .closing := by
              rw [QAbstractSocket.disconnectFromHost, if_neg made]
            simp [Open, Ends, reads, asked, closes]
        | reused asked found => simp [Open, Ends, asked]
        | opened opens =>
            cases opens with
            | plain asked missing => simp [Open, Ends, asked]
            | tunnel asked => simp [Open, Ends, asked]
      · cases happened
        have same : (c.readyRead.foldl (callSlot t up) c).Open ↔ c.Open := by
          rw [Open, Open, socket_callStreams up noHttp inv.openStreams]
          split <;> rfl
        rw [same, Ends]
        simp [noHttp]
  | proxySocket k e =>
      obtain ⟨p, here, -, -, rfl⟩ := event_proxySocket.mp happened
      obtain ⟨state, goes⟩ := open_foldl_write c.socket (answers (c, up, .proxySocket k e))
      have upstream : ¬ Ends t (c, up, .proxySocket k e) := id
      rw [Open, Open, socket_proxySocketEvent inv.clientWritable here up e, state, goes,
        and_iff_left upstream]

/-- In every run of a client, the proxy closes the client for data that is no request, deletes it
when its own connection has failed or ended, and keeps it open otherwise: whatever happens to its
upstream sockets, that they cannot connect or that the servers close them, does not end it. -/
theorem open_iff {as : List (QNetworkProxy × ClientEvent)}
    (ran : run (step t) (incoming true) as = some c) :
    c.Open ↔ ∀ h ∈ history (step t) (incoming true) as, ¬ Ends t h := by
  have start : (incoming true).Open ↔
      ∀ h ∈ ([] : List (Client × QNetworkProxy × ClientEvent)), ¬ Ends t h :=
    ⟨fun _ => by simp, fun _ => ⟨rfl, rfl⟩⟩
  have kept := run_keeps_history
    (fun (c : Client) past => c.Inv ∧ (c.Open ↔ ∀ h ∈ past, ¬ Ends t h)) ?_
    ⟨inv_incoming true, start⟩ ran
  · exact kept.2
  · rintro u past ⟨up, e⟩ u' ⟨inv, before⟩ stepped
    refine ⟨inv_step inv stepped, ?_⟩
    rw [open_step_iff inv stepped, before, List.forall_mem_append, List.forall_mem_singleton]

theorem open_iff_unreachable :
    unreachableClient.Open ↔
      ∀ h ∈ history (step plainUrl) (incoming true) unreachable, ¬ Ends plainUrl h :=
  open_iff (by decide)

end Closing

section Fragment

theorem length_step {up : QNetworkProxy} {e : ClientEvent} (inv : c.Inv)
    (stepped : c.step t (up, e) = some c') (silent : e ≠ .readyRead) :
    c'.children.length = c.children.length := by
  cases shape_of_step inv stepped with
  | kept later slots => exact later.length
  | opened => exact absurd rfl silent
  | tunnelled => exact List.length_modify ..
  | deleted => exact List.length_modify ..

theorem state_step {up : QNetworkProxy} {e : ClientEvent} (inv : c.Inv)
    (stepped : c.step t (up, e) = some c') (closed : c.socket.state ≠ .connected) :
    c'.socket.state ≠ .connected := by
  obtain ⟨can, happened⟩ := step_eq_some.mp stepped
  cases e with
  | receive data => exact absurd can closed
  | readyRead => exact absurd can closed
  | errorOccurred =>
      cases happened
      exact closed
  | disconnected =>
      cases happened
      simp [QAbstractSocket.disconnected]
  | proxySocket k e =>
      obtain ⟨p, here, -, -, rfl⟩ := event_proxySocket.mp happened
      rw [socket_proxySocketEvent inv.clientWritable here up e, (open_foldl_write _ _).1]
      exact closed

theorem silent_of_closed {as : List (QNetworkProxy × ClientEvent)} (inv : c.Inv)
    (closed : c.socket.state ≠ .connected) (ran : run (step t) c as = some c') :
    c'.children.length = c.children.length ∧
      ∀ h ∈ history (step t) c as, passedOn t h = none := by
  have kept := run_keeps_history (fun (d : Client) past =>
    d.Inv ∧ d.socket.state ≠ .connected ∧ d.children.length = c.children.length ∧
      ∀ h ∈ past, passedOn t h = none) ?_ ⟨inv, closed, rfl, by simp⟩ ran
  · exact kept.2.2
  · rintro u past ⟨up, e⟩ u' ⟨invU, closedU, sameU, nothing⟩ stepped
    obtain ⟨can, -⟩ := step_eq_some.mp stepped
    have silent : e ≠ .readyRead := by
      rintro rfl
      exact closedU can
    refine ⟨inv_step invU stepped, state_step invU stepped closedU,
      (length_step invU stepped silent).trans sameU, fun h mem => ?_⟩
    rcases List.mem_append.mp mem with old | new
    · exact nothing h old
    · rw [List.mem_singleton.mp new]
      cases e <;> first | exact absurd rfl silent | rfl

theorem unbroken_take {line : QByteArray} (unbroken : ¬ crlf <:+: line) (rest : QByteArray) {n : ℕ}
    (short : n ≤ line.length + 1) : ¬ crlf <:+: (line ++ crlf ++ rest).take n := by
  intro broken
  have first := find_crlf unbroken rest
  obtain ⟨-, -, early⟩ := QByteArray.find_eq_some_iff.mp first
  obtain ⟨before, after, whole⟩ := broken
  have bound := congrArg List.length whole
  rw [List.length_append, List.length_append, List.length_take] at bound
  change before.length + 2 + after.length = _ at bound
  apply early before.length (by omega)
  have cut := List.take_append_drop n (line ++ crlf ++ rest)
  rw [← whole, List.append_assoc, List.append_assoc] at cut
  rw [← cut, List.drop_left' rfl]
  exact ⟨_, rfl⟩

/-- A request whose first part, read on its own, ends before the line break of the request line is
complete is never passed on: the client is closed, opens no upstream socket and has no request read
any more, whatever it sends later and in whatever order the events come. -/
theorem fragment_never_passedOn {line rest : QByteArray} {n : ℕ}
    {as bs : List (QNetworkProxy × ClientEvent)} {up : QNetworkProxy}
    (ran : run (step t) (incoming accepted) as = some c) (unbroken : ¬ crlf <:+: line)
    (short : n ≤ line.length + 1) (part : c.socket.incoming = (line ++ crlf ++ rest).take n)
    (reads : ReadSlot.onSocketReadyRead ∈ c.readyRead)
    (more : run (step t) c ((up, .readyRead) :: bs) = some c') :
    c'.children.length = c.children.length ∧ c'.socket.state ≠ .connected ∧
      ∀ h ∈ history (step t) c ((up, .readyRead) :: bs), passedOn t h = none := by
  have inv := (booked_run ran).inv
  have http := inv.slots.resolve_right fun without => without reads
  obtain ⟨d, stepped, later⟩ := exists_step_of_run_cons more
  obtain ⟨can, happened⟩ := step_eq_some.mp stepped
  have noRequest : request t c.socket.incoming = .invalid := by
    rw [part]
    exact request_of_unbroken t (unbroken_take unbroken rest short)
  rw [event_readyRead_http http, Option.some.injEq] at happened
  have invD := inv_step inv stepped
  have asks := asks_onSocketReadyRead t up c
  rw [happened] at asks
  cases asks with
  | invalid asked =>
      have made : c.socket.readAll.state ≠ .unconnected := by
        have state : c.socket.state = .connected := can
        simp [state]
      have closed : c.socket.readAll.disconnectFromHost.state ≠ .connected := by
        rw [QAbstractSocket.disconnectFromHost, if_neg made]
        exact SocketState.noConfusion
      obtain ⟨same, nothing⟩ := silent_of_closed invD closed later
      have stays := run_keeps (P := fun d => d.Inv ∧ d.socket.state ≠ .connected)
        (fun u a u' all stepped => ⟨inv_step all.1 stepped, state_step all.1 stepped all.2⟩)
        ⟨invD, closed⟩ later
      refine ⟨same, stays.2, fun h mem => ?_⟩
      rw [history_cons stepped, List.mem_cons] at mem
      rcases mem with rfl | old
      · simp [passedOn, asked]
      · exact nothing h old
  | reused asked found => exact absurd (noRequest.symm.trans asked) (by simp)
  | opened opens =>
      cases opens with
      | plain asked missing => exact absurd (noRequest.symm.trans asked) (by simp)
      | tunnel asked => exact absurd (noRequest.symm.trans asked) (by simp)

def fragmentClient : Client :=
  { incoming true with socket := { state := .connected, incoming := toUtf8 "GET http" } }

theorem fragment_never_passedOn_first :
    ∃ c', run (step plainUrl) fragmentClient [(localProxy, .readyRead)] = some c' ∧
      c'.socket.state ≠ .connected := by
  have ran : run (step plainUrl) (incoming true) [(localProxy, .receive (toUtf8 "GET http"))] =
      some fragmentClient := by decide
  obtain ⟨c', more⟩ : ∃ c', run (step plainUrl) fragmentClient [(localProxy, .readyRead)] =
      some c' := ⟨_, rfl⟩
  have unbroken : ¬ crlf <:+: toUtf8 "GET http://a/ 1" := by decide
  have part : fragmentClient.socket.incoming =
      (toUtf8 "GET http://a/ 1" ++ crlf ++ []).take 8 := by decide
  have closed := fragment_never_passedOn ran unbroken (by decide) part (by decide) more
  exact ⟨c', more, closed.2.1⟩

end Fragment

end Client

end QvPlugin.Socksify
