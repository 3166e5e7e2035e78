import QvPlugin.Lib.History
import QvPlugin.Qt.Socket

/-!
`SocketStream`, which streams data between two sockets, and what reaches the other side in any run
of the two sockets' events.
-/

set_option autoImplicit false
set_option relaxedAutoImplicit false

namespace QvPlugin.Socksify

open Lib Qt

structure SocketStream where
  m_as : QAbstractSocket
  m_bs : QAbstractSocket
  deriving DecidableEq

/-- The body of both slots: all that is available from `source` is written to `dest`. -/
def pass (source dest : QAbstractSocket) : QAbstractSocket × QAbstractSocket :=
  if dest.isWritable then (source.readAll, dest.write source.incoming) else (source, dest)

namespace SocketStream

def onSocketAReadyRead (s : SocketStream) : SocketStream :=
  let (m_as, m_bs) := pass s.m_as s.m_bs
  { m_as, m_bs }

def onSocketBReadyRead (s : SocketStream) : SocketStream :=
  let (m_bs, m_as) := pass s.m_bs s.m_as
  { m_as, m_bs }

inductive Side where
  | a
  | b
  deriving DecidableEq

def Side.other : Side → Side
  | .a => .b
  | .b => .a

inductive Event where
  | receive (data : QByteArray)
  | readyRead
  | changed (state : SocketState) (isWritable : Bool)
  deriving DecidableEq

def socket (s : SocketStream) : Side → QAbstractSocket
  | .a => s.m_as
  | .b => s.m_bs

def step (s : SocketStream) : Side × Event → Option SocketStream
  | (.a, .receive data) => some { s with m_as := s.m_as.receive data }
  | (.b, .receive data) => some { s with m_bs := s.m_bs.receive data }
  | (.a, .readyRead) => some s.onSocketAReadyRead
  | (.b, .readyRead) => some s.onSocketBReadyRead
  | (.a, .changed state isWritable) => some { s with m_as := { s.m_as with state, isWritable } }
  | (.b, .changed state isWritable) => some { s with m_bs := { s.m_bs with state, isWritable } }

def arrival (x : Side) : SocketStream × Side × Event → QByteArray
  | (_, y, .receive data) => if y = x then data else []
  | _ => []

/-- What is read at one end, and whether the other end takes it. -/
def relayed (x : Side) : SocketStream × Side × Event → List (Bool × QByteArray)
  | (s, y, .readyRead) =>
      if y = x ∧ (s.socket x.other).isWritable = true then
        [(decide (s.socket x.other).Accepts, (s.socket x).incoming)]
      else []
  | _ => []

/-- Data that is read when the other end, though open, has no connection. -/
def Loses (x : Side) : SocketStream × Side × Event → Prop
  | (s, y, .readyRead) =>
      y = x ∧ (s.socket x.other).isWritable = true ∧ (s.socket x.other).state = .unconnected ∧
        (s.socket x).incoming ≠ []
  | _ => False

theorem exists_step (s : SocketStream) (e : Side × Event) : ∃ s', s.step e = some s' := by
  obtain ⟨x, e⟩ := e
  cases x <;> cases e <;> exact ⟨_, rfl⟩

theorem Side.eq_or_eq_other (x y : Side) : x = y ∨ x = y.other := by
  cases x <;> cases y <;> simp [Side.other]

theorem Side.other_ne (x : Side) : x.other ≠ x := by
  cases x <;> simp [Side.other]

@[simp] theorem Side.other_other (x : Side) : x.other.other = x := by
  cases x <;> rfl

theorem socket_readyRead {s s' : SocketStream} {y : Side}
    (stepped : s.step (y, .readyRead) = some s') :
    s'.socket y = (pass (s.socket y) (s.socket y.other)).1 ∧
      s'.socket y.other = (pass (s.socket y) (s.socket y.other)).2 := by
  cases y <;> cases stepped <;> exact ⟨rfl, rfl⟩

section Pass

variable (source dest : QAbstractSocket)

theorem incoming_pass_source :
    (pass source dest).1.incoming = if dest.isWritable then [] else source.incoming := by
  unfold pass; split <;> rfl

@[simp] theorem written_pass_source : (pass source dest).1.written = source.written := by
  unfold pass; split <;> rfl

@[simp] theorem incoming_pass_dest : (pass source dest).2.incoming = dest.incoming := by
  unfold pass; split <;> simp

theorem written_pass_dest : (pass source dest).2.written =
    if dest.Accepts then dest.written ++ [source.incoming] else dest.written := by
  unfold pass
  split
  · exact QAbstractSocket.written_write dest source.incoming
  · rename_i shut
    rw [if_neg fun accepts => shut accepts.1]

end Pass

theorem incoming_step {s s' : SocketStream} {e : Side × Event} (stepped : s.step e = some s')
    (x : Side) :
    (s.socket x).incoming ++ arrival x (s, e) =
      (relayed x (s, e)).flatMap Prod.snd ++ (s'.socket x).incoming := by
  obtain ⟨y, e⟩ := e
  cases e with
  | receive data =>
      cases x <;> cases y <;> cases stepped <;> simp [socket, arrival, relayed]
  | readyRead =>
      obtain ⟨own, peer⟩ := socket_readyRead stepped
      have quiet : arrival x (s, y, .readyRead) = [] := rfl
      rw [quiet]
      rcases Side.eq_or_eq_other x y with rfl | rfl
      · rw [own, incoming_pass_source, relayed]
        by_cases open_ : (s.socket x.other).isWritable = true
        · simp [open_]
        · simp [open_]
      · rw [peer, incoming_pass_dest, relayed]
        simp [(Side.other_ne y).symm]
  | changed state isWritable =>
      cases x <;> cases y <;> cases stepped <;> simp [socket, arrival, relayed]

theorem written_step {s s' : SocketStream} {e : Side × Event} (stepped : s.step e = some s')
    (x : Side) :
    (s'.socket x.other).written =
      (s.socket x.other).written ++ ((relayed x (s, e)).filter Prod.fst).map Prod.snd := by
  obtain ⟨y, e⟩ := e
  cases e with
  | receive data =>
      cases x <;> cases y <;> cases stepped <;> simp [socket, Side.other, relayed]
  | readyRead =>
      obtain ⟨own, peer⟩ := socket_readyRead stepped
      rcases Side.eq_or_eq_other x y with rfl | rfl
      · rw [peer, written_pass_dest, relayed]
        by_cases accepts : (s.socket x.other).Accepts
        · simp [accepts, accepts.1]
        · by_cases open_ : (s.socket x.other).isWritable = true
          · simp [accepts, open_]
          · simp [accepts, open_]
      · rw [Side.other_other, own, written_pass_source, relayed]
        simp [(Side.other_ne y).symm]
  | changed state isWritable =>
      cases x <;> cases y <;> cases stepped <;> simp [socket, Side.other, relayed]

/-- What has been read at one end, since the start `s₀`, and what the other end has taken of it. -/
def Accounted (s₀ : SocketStream) (x : Side) (s : SocketStream)
    (past : List (SocketStream × Side × Event)) : Prop :=
  (s₀.socket x).incoming ++ past.flatMap (arrival x) =
      (past.flatMap (relayed x)).flatMap Prod.snd ++ (s.socket x).incoming ∧
    (s.socket x.other).written =
      (s₀.socket x.other).written ++ ((past.flatMap (relayed x)).filter Prod.fst).map Prod.snd

theorem accounted_run {s t : SocketStream} {es : List (Side × Event)}
    (ran : run step s es = some t) (x : Side) : Accounted s x t (history step s es) := by
  have start : Accounted s x s [] := by simp [Accounted]
  refine run_keeps_history (Accounted s x) ?_ start ran
  rintro u past e u' ⟨read, taken⟩ stepped
  constructor
  · rw [List.flatMap_append, ← List.append_assoc, read, List.append_assoc,
      List.flatMap_singleton, incoming_step stepped x]
    simp
  · rw [written_step stepped x, taken]
    simp

theorem length_flatten_filter_le {α : Type} (pieces : List (Bool × List α)) :
    ((pieces.filter Prod.fst).map Prod.snd).flatten.length ≤
      (pieces.flatMap Prod.snd).length := by
  induction pieces with
  | nil => simp
  | cons piece rest ih =>
      obtain ⟨taken, data⟩ := piece
      cases taken with
      | true => simpa using ih
      | false =>
          have step : List.filter Prod.fst ((false, data) :: rest) = rest.filter Prod.fst := rfl
          rw [step, List.flatMap_cons, List.length_append]
          omega

theorem flatten_filter_eq_iff {α : Type} (pieces : List (Bool × List α)) :
    ((pieces.filter Prod.fst).map Prod.snd).flatten = pieces.flatMap Prod.snd ↔
      ∀ piece ∈ pieces, piece.1 = false → piece.2 = [] := by
  induction pieces with
  | nil => simp
  | cons piece rest ih =>
      obtain ⟨taken, data⟩ := piece
      cases taken with
      | true => simp [ih]
      | false =>
          have step : List.filter Prod.fst ((false, data) :: rest) = rest.filter Prod.fst := rfl
          rw [step, List.flatMap_cons, List.forall_mem_cons]
          constructor
          · intro same
            have bound := length_flatten_filter_le rest
            have empty : data = [] := by
              rw [same, List.length_append] at bound
              change data.length + _ ≤ _ at bound
              have none : data.length = 0 := by omega
              exact List.length_eq_zero_iff.mp none
            subst empty
            exact ⟨fun _ => rfl, ih.mp same⟩
          · rintro ⟨empty, others⟩
            have gone : data = [] := empty rfl
            rw [gone, List.nil_append]
            exact ih.mpr others

theorem relayed_empty_iff (x : Side) (h : SocketStream × Side × Event) :
    (∀ piece ∈ relayed x h, piece.1 = false → piece.2 = []) ↔ ¬ Loses x h := by
  obtain ⟨s, y, e⟩ := h
  cases e with
  | receive data => simp [relayed, Loses]
  | changed state isWritable => simp [relayed, Loses]
  | readyRead =>
      rw [relayed, Loses]
      by_cases reads : y = x ∧ (s.socket x.other).isWritable = true
      · rw [if_pos reads]
        have state : ¬ (s.socket x.other).Accepts ↔ (s.socket x.other).state = .unconnected := by
          rw [QAbstractSocket.Accepts]
          simp [reads.2]
        simp only [List.mem_singleton, forall_eq, decide_eq_false_iff_not, state]
        tauto
      · rw [if_neg reads]
        simp only [List.not_mem_nil, false_imp_iff, implies_true, true_iff]
        exact fun loses => reads ⟨loses.1, loses.2.1⟩

/-- However the events of the two sockets are interleaved, what one end has taken, followed by what
is unread at the other, is what had arrived there, byte for byte and in order, exactly when no slot
ran with unread data while the taking end was open but had no connection. -/
theorem delivered_iff (s : SocketStream) (es : List (Side × Event)) :
    ∃ t, run step s es = some t ∧ ∀ x : Side,
      ((t.socket x.other).written.flatten ++ (t.socket x).incoming =
          (s.socket x.other).written.flatten ++
            ((s.socket x).incoming ++ (history step s es).flatMap (arrival x)) ↔
        ∀ h ∈ history step s es, ¬ Loses x h) := by
  obtain ⟨t, ran⟩ := exists_run exists_step s es
  refine ⟨t, ran, fun x => ?_⟩
  obtain ⟨read, taken⟩ := accounted_run ran x
  rw [taken, read, List.flatten_append, List.append_assoc, List.append_cancel_left_eq,
    List.append_cancel_right_eq, flatten_filter_eq_iff, List.forall_mem_flatMap]
  exact forall₂_congr fun h _ => relayed_empty_iff x h

/-- A byte at one end of a stream whose other end has lost its connection. -/
def halfOpen : SocketStream where
  m_as := { state := .connected, incoming := [120] }
  m_bs := { state := .unconnected }

/-- The byte that is read then reaches nobody. -/
theorem delivered_iff_halfOpen : ∃ t, run step halfOpen [(.a, .readyRead)] = some t ∧
    (t.socket .b).written.flatten ++ (t.socket .a).incoming ≠ [120] := by
  obtain ⟨t, ran, delivered⟩ := delivered_iff halfOpen [(.a, .readyRead)]
  refine ⟨t, ran, fun whole => ?_⟩
  have kept := (delivered .a).mp whole
  have read : (halfOpen, Side.a, Event.readyRead) ∈
      history step halfOpen [(.a, .readyRead)] := by decide
  exact kept _ read (by simp [Loses, socket, halfOpen, Side.other])

end SocketStream

end QvPlugin.Socksify
