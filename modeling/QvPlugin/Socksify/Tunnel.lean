import QvPlugin.Socksify.Answers

/-!
A client with a tunnel: what it sends goes to the tunnel's socket and is never looked at, and after
the tunnel has ended it is not read at all.
-/

set_option autoImplicit false
set_option relaxedAutoImplicit false

namespace QvPlugin.Socksify

open Lib Qt Utils

namespace Client

variable {t : QtText} {c c' : Client} {up : QNetworkProxy} {e : ClientEvent} {accepted : Bool}

def sent : Client × QNetworkProxy × ClientEvent → QByteArray
  | (_, _, .receive data) => data
  | _ => []

theorem incoming_foldl_write (s : QAbstractSocket) (data : List (Origin × QByteArray)) :
    (data.foldl (fun s a => s.write a.2) s).incoming = s.incoming := by
  induction data generalizing s with
  | nil => rfl
  | cons a data ih => rw [List.foldl_cons, ih, QAbstractSocket.incoming_write]

theorem incoming_step (inv : c.Inv) (stepped : c.step t (up, e) = some c') :
    c'.socket.incoming =
      if e = .readyRead ∧ c.readyRead ≠ [] then [] else c.socket.incoming ++ sent (c, up, e) := by
  obtain ⟨-, happened⟩ := step_eq_some.mp stepped
  cases e with
  | receive data =>
      cases happened
      simp [sent]
  | errorOccurred =>
      cases happened
      simp [sent]
  | disconnected =>
      cases happened
      simp [sent, QAbstractSocket.disconnected]
  | readyRead =>
      rcases inv.slots with http | noHttp
      · rw [event_readyRead_http http, Option.some.injEq] at happened
        have asks := asks_onSocketReadyRead t up c
        rw [happened] at asks
        rw [if_pos ⟨rfl, by simp [http]⟩]
        cases asks with
        | invalid asked => exact QAbstractSocket.incoming_disconnectFromHost _
        | reused asked found => rfl
        | opened opens => rfl
      · cases happened
        rw [socket_callStreams up noHttp inv.openStreams]
        by_cases none : c.readyRead = []
        · simp [none, sent]
        · simp [none]
  | proxySocket k e =>
      obtain ⟨p, here, -, -, rfl⟩ := event_proxySocket.mp happened
      rw [socket_proxySocketEvent inv.clientWritable here up e, incoming_foldl_write]
      simp [sent]

/-- The slots after an event: a tunnel's connection adds its stream and removes the first slot, its
deletion removes its stream. -/
theorem slots_step (inv : c.Inv) (noHttp : ReadSlot.onSocketReadyRead ∉ c.readyRead)
    (stepped : c.step t (up, e) = some c') :
    c'.readyRead = c.readyRead ∨
      (∃ (k : ℕ) (p : ProxySocket), e = .proxySocket k .connected ∧ c.children[k]? = some p ∧
        p.https = true ∧ p.socket.state = .connecting ∧
        c'.readyRead = c.readyRead ++ [.stream k]) ∨
      ∃ k, e = .proxySocket k .deferredDelete ∧
        c'.readyRead = c.readyRead.filter (· ≠ ReadSlot.stream k) := by
  cases shape_of_step inv stepped with
  | kept later slots => exact Or.inl slots
  | opened opens http slots children => exact Or.inl slots
  | @tunnelled k p here live https connecting =>
      refine Or.inr (Or.inl ⟨k, p, rfl, here, https, connecting, ?_⟩)
      have all : c.readyRead.filter (· ≠ ReadSlot.onSocketReadyRead) = c.readyRead := by
        rw [List.filter_eq_self]
        intro slot mem
        simp only [ne_eq, decide_not, Bool.not_eq_eq_eq_not, Bool.not_true, decide_eq_false_iff_not]
        rintro rfl
        exact noHttp mem
      rw [onProxySocketConnectedHttps, readyRead_modifyChild, all]
  | @deleted k p here => exact Or.inr (Or.inr ⟨k, rfl, rfl⟩)

theorem noHttp_step (inv : c.Inv) (noHttp : ReadSlot.onSocketReadyRead ∉ c.readyRead)
    (stepped : c.step t (up, e) = some c') : ReadSlot.onSocketReadyRead ∉ c'.readyRead := by
  rcases slots_step inv noHttp stepped with same | ⟨k, p, -, -, -, -, more⟩ | ⟨k, -, fewer⟩
  · rw [same]
    exact noHttp
  · rw [more]
    simp [noHttp]
  · rw [fewer]
    exact fun mem => noHttp (List.mem_filter.mp mem).1

theorem passedOn_of_noHttp (noHttp : ReadSlot.onSocketReadyRead ∉ c.readyRead) :
    passedOn t (c, up, e) = none := by
  cases e <;> simp [passedOn, noHttp]

section Dead

/-- A client whose tunnels have ended, with none to come, is not read again: what it sends piles up,
no upstream socket gets any of it, and the proxy does not close the connection. -/
theorem unread_forever {as bs : List (QNetworkProxy × ClientEvent)}
    (ran : run (step t) (incoming accepted) as = some c) (dead : c.readyRead = [])
    (last : ∀ (k : ℕ) (p : ProxySocket), c.children[k]? = some p → p.https = true →
      p.socket.state ≠ .connecting)
    (more : run (step t) c bs = some c') :
    c'.readyRead = [] ∧
      c'.socket.incoming = c.socket.incoming ++ (history (step t) c bs).flatMap sent ∧
      (c'.Open ↔ c.Open ∧ ∀ h ∈ history (step t) c bs,
        h.2.2 ≠ .errorOccurred ∧ h.2.2 ≠ .disconnected) := by
  have inv := (booked_run ran).inv
  have kept := run_keeps_history (fun (u : Client) past => u.Inv ∧
    u.readyRead = [] ∧
    (∀ (k : ℕ) (p : ProxySocket), u.children[k]? = some p → p.https = true →
      p.socket.state ≠ .connecting) ∧
    u.socket.incoming = c.socket.incoming ++ past.flatMap sent ∧
    (u.Open ↔ c.Open ∧ ∀ h ∈ past, h.2.2 ≠ .errorOccurred ∧ h.2.2 ≠ .disconnected)) ?_
    ⟨inv, dead, last, by simp, by simp⟩ more
  · exact ⟨kept.2.1, kept.2.2.2.1, kept.2.2.2.2⟩
  · rintro u past ⟨up, e⟩ u' ⟨invU, deadU, lastU, piled, open_⟩ stepped
    have noHttp : ReadSlot.onSocketReadyRead ∉ u.readyRead := by simp [deadU]
    have stillDead : u'.readyRead = [] := by
      rcases slots_step invU noHttp stepped with same | ⟨k, p, -, here, https, made, -⟩ |
        ⟨k, -, fewer⟩
      · rw [same, deadU]
      · exact absurd made (lastU k p here https)
      · rw [fewer, deadU]
        rfl
    refine ⟨inv_step invU stepped, stillDead, fun k q there https => ?_, ?_, ?_⟩
    · cases here : u.children[k]? with
      | none =>
          obtain ⟨-, http, -⟩ := opened_step invU stepped here there
          exact absurd (deadU.symm.trans http) (by simp)
      | some p =>
          obtain ⟨q', there', same⟩ := purpose_step invU stepped here
          rw [← Option.some.inj (there.symm.trans there')] at same
          have httpsP : p.https = true := (congrArg (·.2.2.1) same).symm.trans https
          exact fun again => lastU k p here httpsP (connecting_step invU stepped here there again)
    · rw [incoming_step invU stepped, if_neg (by simp [deadU]), piled, List.append_assoc]
      simp
    · have ends : Ends t (u, up, e) ↔ e = .errorOccurred ∨ e = .disconnected := by
        cases e <;> simp [Ends, noHttp]
      rw [open_step_iff invU stepped, open_, ends, List.forall_mem_append,
        List.forall_mem_singleton]
      tauto

/-- A tunnel, closed by the server. -/
def closedTunnel : List (QNetworkProxy × ClientEvent) :=
  tunnelling ++ [(localProxy, .proxySocket 0 .disconnected),
    (localProxy, .proxySocket 0 .deferredDelete)]

def closedTunnelClient : Client where
  socket := { state := .connected, written := [httpsHeader, [7]] }
  readyRead := []
  children := [{ ProxySocket.tunnel localProxy "a" 1 with
    socket := { state := .unconnected, deleteLater := true }, deleted := true }]

theorem run_closedTunnel :
    run (step plainUrl) (incoming true) closedTunnel = some closedTunnelClient := by
  decide

theorem unread_forever_closedTunnel :
    ∃ c', run (step plainUrl) closedTunnelClient
        [(localProxy, .receive [1]), (localProxy, .readyRead)] = some c' ∧
      c'.socket.incoming = [1] := by
  have last : ∀ (k : ℕ) (p : ProxySocket), closedTunnelClient.children[k]? = some p →
      p.https = true → p.socket.state ≠ .connecting := by
    intro k p here
    cases k with
    | zero =>
        cases here
        decide
    | succ k => exact absurd here (by simp [closedTunnelClient])
  obtain ⟨c', more⟩ : ∃ c', run (step plainUrl) closedTunnelClient
      [(localProxy, .receive [1]), (localProxy, .readyRead)] = some c' := ⟨_, rfl⟩
  exact ⟨c', more, (unread_forever run_closedTunnel rfl last more).2.1⟩

end Dead

section Through

theorem callStreams_first (up : QNetworkProxy) {k : ℕ} {rest : List ReadSlot} {p : ProxySocket}
    (noHttp : ReadSlot.onSocketReadyRead ∉ rest) (once : ReadSlot.stream k ∉ rest)
    (here : c.children[k]? = some p) (open_ : p.socket.isWritable = true) :
    ((ReadSlot.stream k :: rest).foldl (callSlot t up) c).children[k]? =
      some (p.write c.socket.incoming) := by
  have first : (c.streamed k .onSocketAReadyRead).children[k]? =
      some (p.write c.socket.incoming) := by
    rw [streamed_of_some here, getElem?_modifyChild]
    simp only [here, Option.map_some, if_pos, SocketStream.onSocketAReadyRead,
      pass_of_writable open_]
    rfl
  rw [List.foldl_cons, callSlot, children_callStreams_of_notMem up noHttp once, first]

/-- While the first tunnel has its connection, what is unread of the client and what the tunnel's
socket took are all that the client sent. -/
theorem taken_step (inv : c.Inv) {k : ℕ} {rest : List ReadSlot}
    (first : c.readyRead = .stream k :: rest) (stepped : c.step t (up, e) = some c')
    {p : ProxySocket} (here : c.children[k]? = some p) (made : p.socket.state ≠ .connecting) :
    ∃ q, c'.children[k]? = some q ∧ (q.socket.state = .connected →
      p.socket.state = .connected ∧ q.socket.written.flatten ++ c'.socket.incoming =
        p.socket.written.flatten ++ c.socket.incoming ++ sent (c, up, e)) := by
  have unread := incoming_step inv stepped
  have open_ := inv.writable k p here
  obtain ⟨-, happened⟩ := step_eq_some.mp stepped
  have noHttp : ReadSlot.onSocketReadyRead ∉ c.readyRead :=
    inv.slots.resolve_left fun http => by simp [first] at http
  have quiet {q : ProxySocket} (other : e ≠ .readyRead)
      (state : q.socket.state = .connected → p.socket.state = .connected)
      (written : q.socket.written = p.socket.written) : q.socket.state = .connected →
        p.socket.state = .connected ∧ q.socket.written.flatten ++ c'.socket.incoming =
          p.socket.written.flatten ++ c.socket.incoming ++ sent (c, up, e) := by
    intro connected
    rw [unread, if_neg fun reads => other reads.1, written, List.append_assoc]
    exact ⟨state connected, rfl⟩
  cases e with
  | receive data =>
      cases happened
      exact ⟨p, here, quiet (by simp) id rfl⟩
  | errorOccurred =>
      cases happened
      exact ⟨p, here, quiet (by simp) id rfl⟩
  | disconnected =>
      cases happened
      exact ⟨p, here, quiet (by simp) id rfl⟩
  | readyRead =>
      cases happened
      have once := inv.nodup
      rw [first, List.nodup_cons] at once
      have noHttpRest : ReadSlot.onSocketReadyRead ∉ rest :=
        fun mem => noHttp (first ▸ List.mem_cons_of_mem _ mem)
      rw [if_pos ⟨rfl, by simp [first]⟩] at unread
      refine ⟨p.write c.socket.incoming, ?_, fun connected => ?_⟩
      · rw [first]
        exact callStreams_first up noHttpRest once.1 here open_
      · have state : p.socket.state = .connected :=
          (QAbstractSocket.state_write ..).symm.trans connected
        have accepts : p.socket.Accepts := ⟨open_, by simp [state]⟩
        refine ⟨state, ?_⟩
        rw [unread, ProxySocket.write, QAbstractSocket.written_write, if_pos accepts]
        simp [sent]
  | proxySocket j e =>
      obtain ⟨p', here', -, can, rfl⟩ := event_proxySocket.mp happened
      by_cases hit : j = k
      · subst hit
        have same : p = p' := Option.some.inj (here.symm.trans here')
        subst same
        have self (f : ProxySocket → ProxySocket) (d : Client) (kept : d.children = c.children) :
            (d.modifyChild j f).children[j]? = some (f p) := by
          rw [getElem?_modifyChild, kept, here, Option.map_some, if_pos rfl]
        cases e with
        | connected => exact absurd can made
        | errorOccurred =>
            refine ⟨p, ?_, quiet (by simp) id rfl⟩
            simp only [proxySocketEvent, if_neg made]
            exact here
        | receive data => exact ⟨_, self _ _ rfl, quiet (by simp) id rfl⟩
        | readyRead =>
            have stream : ReadSlot.stream j ∈ c.readyRead := by simp [first]
            obtain ⟨r, there, -, https, -⟩ := inv.streams j stream
            rw [Option.some.inj (there.symm.trans here)] at https
            refine ⟨p.readAll, ?_, quiet (by simp) id rfl⟩
            simp only [proxySocketEvent, https, stream, if_true]
            rw [streamed_of_some here, SocketStream.onSocketBReadyRead,
              pass_of_writable inv.clientWritable]
            exact self _ _ rfl
        | disconnected =>
            exact ⟨_, self _ _ rfl, fun connected =>
              absurd connected (by simp [QAbstractSocket.disconnected])⟩
        | deferredDelete => exact ⟨_, self _ _ rfl, quiet (by simp) id rfl⟩
      · exact ⟨p, (children_proxySocketEvent_of_ne hit p' e).trans here, quiet (by simp) id rfl⟩

/-- For as long as a client's first tunnel lasts, the tunnel's socket takes, byte for byte and in
order, all that the client sends but what is still unread, and none of it is looked at as a request.
-/
theorem tunnel_upstream {as bs : List (QNetworkProxy × ClientEvent)} {k : ℕ}
    {rest : List ReadSlot} {p q : ProxySocket}
    (ran : run (step t) (incoming accepted) as = some c) (first : c.readyRead = .stream k :: rest)
    (here : c.children[k]? = some p) (more : run (step t) c bs = some c')
    (there : c'.children[k]? = some q) (lasts : ReadSlot.stream k ∈ c'.readyRead)
    (connected : q.socket.state = .connected) :
    q.socket.written.flatten ++ c'.socket.incoming =
        p.socket.written.flatten ++ c.socket.incoming ++
          (history (step t) c bs).flatMap sent ∧
      ∀ h ∈ history (step t) c bs, passedOn t h = none := by
  have inv := (booked_run ran).inv
  have noHttp : ReadSlot.onSocketReadyRead ∉ c.readyRead :=
    inv.slots.resolve_left fun http => by simp [first] at http
  have kept := run_keeps_history (fun (u : Client) past => u.Inv ∧
    ReadSlot.onSocketReadyRead ∉ u.readyRead ∧ (∀ h ∈ past, passedOn t h = none) ∧
    ∃ r, u.children[k]? = some r ∧ r.socket.state ≠ .connecting ∧
      (ReadSlot.stream k ∈ u.readyRead → (∃ rest, u.readyRead = .stream k :: rest) ∧
        (r.socket.state = .connected → r.socket.written.flatten ++ u.socket.incoming =
          p.socket.written.flatten ++ c.socket.incoming ++ past.flatMap sent))) ?_ ?_ more
  · obtain ⟨-, -, unseen, r, there', -, through⟩ := kept
    rw [Option.some.inj (there.symm.trans there')] at connected ⊢
    exact ⟨(through lasts).2 connected, unseen⟩
  · rintro u past ⟨up, e⟩ u' ⟨invU, noHttpU, unseen, r, hereU, made, through⟩ stepped
    have unseen' : ∀ h ∈ past ++ [(u, up, e)], passedOn t h = none := by
      rw [List.forall_mem_append, List.forall_mem_singleton]
      exact ⟨unseen, passedOn_of_noHttp noHttpU⟩
    obtain ⟨r', thereU, -⟩ := purpose_step invU stepped hereU
    refine ⟨inv_step invU stepped, noHttp_step invU noHttpU stepped, unseen', r', thereU,
      fun again => made (connecting_step invU stepped hereU thereU again), fun mem' => ?_⟩
    -- the stream was there before: it is added by the connection only, which was made
    have mem : ReadSlot.stream k ∈ u.readyRead := by
      rcases slots_step invU noHttpU stepped with same | ⟨j, s, -, here', -, making, more⟩ |
        ⟨j, -, fewer⟩
      · exact same ▸ mem'
      · rw [more, List.mem_append, List.mem_singleton] at mem'
        rcases mem' with old | new
        · exact old
        · have same : k = j := ReadSlot.stream.inj new
          subst same
          rw [Option.some.inj (here'.symm.trans hereU)] at making
          exact absurd making made
      · rw [fewer] at mem'
        exact (List.mem_filter.mp mem').1
    obtain ⟨⟨tail, firstU⟩, balance⟩ := through mem
    obtain ⟨r'', thereU', taken⟩ := taken_step invU firstU stepped hereU made
    rw [Option.some.inj (thereU'.symm.trans thereU)] at taken
    refine ⟨?_, fun connected' => ?_⟩
    · rcases slots_step invU noHttpU stepped with same | ⟨j, s, -, -, -, -, more⟩ |
        ⟨j, -, fewer⟩
      · exact ⟨tail, same.trans firstU⟩
      · exact ⟨tail ++ [.stream j], by rw [more, firstU]; rfl⟩
      · rw [fewer, firstU] at mem' ⊢
        rw [List.filter_cons] at mem' ⊢
        split
        · exact ⟨_, rfl⟩
        · rename_i gone
          rw [if_neg gone] at mem'
          have once := invU.nodup
          rw [firstU, List.nodup_cons] at once
          exact absurd (List.mem_filter.mp mem').1 once.1
    · obtain ⟨before, after⟩ := taken connected'
      rw [after, balance before, List.append_assoc]
      simp
  · obtain ⟨r, here', -, -, made⟩ := inv.streams k (by simp [first])
    rw [Option.some.inj (here'.symm.trans here)] at made
    exact ⟨inv, noHttp, by simp, p, here, made, fun _ => ⟨⟨rest, first⟩, fun _ => by simp⟩⟩

def tunnelledClient : Client :=
  { tunnellingClient with
    children := [{ ProxySocket.tunnel localProxy "a" 1 with
      socket := { state := .connected, written := [[1]] } }] }

theorem tunnel_upstream_tunnelling :
    run (step plainUrl) tunnellingClient [(localProxy, .receive [1]), (localProxy, .readyRead)] =
        some tunnelledClient ∧
      [[(1 : UInt8)]].flatten ++ [] = [] ++ [] ++ (history (step plainUrl) tunnellingClient
        [(localProxy, .receive [1]), (localProxy, .readyRead)]).flatMap sent := by
  have more : run (step plainUrl) tunnellingClient
      [(localProxy, .receive [1]), (localProxy, .readyRead)] = some tunnelledClient := by decide
  exact ⟨more, (tunnel_upstream (k := 0) run_tunnelling rfl rfl more rfl (by decide) rfl).1⟩

end Through

end Client

end QvPlugin.Socksify
