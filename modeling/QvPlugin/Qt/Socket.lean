import QvPlugin.Qt.Bytes

/-!
`QAbstractSocket`, as the code that uses one sees it: a state, an open mode, what has arrived and
was not read, and what it took to send. A write is taken while a connection is being made, and sent
once there is one.
-/

set_option autoImplicit false
set_option relaxedAutoImplicit false

namespace QvPlugin.Qt

/-- `QAbstractSocket::SocketState`; a host is looked up while `connecting`. -/
inductive SocketState where
  | unconnected
  | connecting
  | connected
  | closing
  deriving DecidableEq

structure QAbstractSocket where
  state : SocketState
  isWritable : Bool := true
  /-- What has arrived and was not read. -/
  incoming : QByteArray := []
  /-- The data of each `write` call that was taken. -/
  written : List QByteArray := []
  /-- The object goes when control is back in the event loop. -/
  deleteLater : Bool := false
  deriving DecidableEq

namespace QAbstractSocket

/-- What the next `write` call meets: an open device that is not without a connection. -/
def Accepts (s : QAbstractSocket) : Prop := s.isWritable = true ∧ s.state ≠ .unconnected

instance (s : QAbstractSocket) : Decidable s.Accepts := inferInstanceAs (Decidable (_ ∧ _))

/-- `write`, which returns -1 when it does not take the data. -/
def write (s : QAbstractSocket) (data : QByteArray) : QAbstractSocket :=
  if s.Accepts then { s with written := s.written ++ [data] } else s

/-- `readAll`: the data returned is `s.incoming`. -/
def readAll (s : QAbstractSocket) : QAbstractSocket := { s with incoming := [] }

def receive (s : QAbstractSocket) (data : QByteArray) : QAbstractSocket :=
  { s with incoming := s.incoming ++ data }

/-- `disconnectFromHost`: closing, until what was written is sent. -/
def disconnectFromHost (s : QAbstractSocket) : QAbstractSocket :=
  if s.state = .unconnected then s else { s with state := .closing }

/-- The end of a connection, with `deleteLater` connected to `disconnected`. -/
def disconnected (s : QAbstractSocket) : QAbstractSocket :=
  { s with state := .unconnected, deleteLater := true }

variable (s : QAbstractSocket) (data : QByteArray)

@[simp] theorem state_write : (s.write data).state = s.state := by
  unfold write; split <;> rfl

@[simp] theorem isWritable_write : (s.write data).isWritable = s.isWritable := by
  unfold write; split <;> rfl

@[simp] theorem incoming_write : (s.write data).incoming = s.incoming := by
  unfold write; split <;> rfl

@[simp] theorem deleteLater_write : (s.write data).deleteLater = s.deleteLater := by
  unfold write; split <;> rfl

theorem written_write :
    (s.write data).written = if s.Accepts then s.written ++ [data] else s.written := by
  unfold write; split <;> rfl

@[simp] theorem state_readAll : s.readAll.state = s.state := rfl

@[simp] theorem isWritable_readAll : s.readAll.isWritable = s.isWritable := rfl

@[simp] theorem incoming_readAll : s.readAll.incoming = [] := rfl

@[simp] theorem written_readAll : s.readAll.written = s.written := rfl

@[simp] theorem deleteLater_readAll : s.readAll.deleteLater = s.deleteLater := rfl

@[simp] theorem state_receive : (s.receive data).state = s.state := rfl

@[simp] theorem isWritable_receive : (s.receive data).isWritable = s.isWritable := rfl

@[simp] theorem incoming_receive : (s.receive data).incoming = s.incoming ++ data := rfl

@[simp] theorem written_receive : (s.receive data).written = s.written := rfl

@[simp] theorem deleteLater_receive : (s.receive data).deleteLater = s.deleteLater := rfl

@[simp] theorem isWritable_disconnectFromHost :
    s.disconnectFromHost.isWritable = s.isWritable := by
  unfold disconnectFromHost; split <;> rfl

@[simp] theorem incoming_disconnectFromHost : s.disconnectFromHost.incoming = s.incoming := by
  unfold disconnectFromHost; split <;> rfl

@[simp] theorem written_disconnectFromHost : s.disconnectFromHost.written = s.written := by
  unfold disconnectFromHost; split <;> rfl

theorem accepts_congr {s t : QAbstractSocket} (mode : s.isWritable = t.isWritable)
    (state : s.state = t.state) : s.Accepts ↔ t.Accepts := by
  rw [Accepts, Accepts, mode, state]

end QAbstractSocket

end QvPlugin.Qt
