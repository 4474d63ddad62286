import GufoBlob.Ftp.Structure

/-!
# What goes over the sockets

A `Transcript` is an arbitrary environment together with what an observer of the sockets sees:
every socket that is opened gets a number of its own, and the log records the connections, the
octets handed to them and the marks of `_cmd`. The log is kept by `recording`, whatever the
environment does.
-/

namespace GufoBlob.Ftp

open Text Interaction

inductive Event where
  | opened (ch : Chan) (id : Nat)
  | failed (ch : Chan)
  | sent (ch : Chan) (id : Nat) (b : Bytes)
  | asked (id : Nat) (cmd : Str)
  | closed (ch : Chan) (id : Nat)
  deriving DecidableEq

structure Transcript (E : Type) where
  env : E
  /-- The number of the next socket. -/
  next : Nat
  log : List Event

variable {E : Type}

/-- What the log keeps of a call that opens no connection. -/
def events : FtpOp → List Event
  | @FtpOp.sendall ch s b => [.sent ch s.id b]
  | @FtpOp.write ch s b => [.sent ch s.id b]
  | @FtpOp.close ch s => [.closed ch s.id]
  | @FtpOp.closeWriter ch s => [.closed ch s.id]
  | .asked s cmd => [.asked s.id cmd]
  | _ => []

/-- The environment `h`, with the transcript. -/
def recording (h : Handler ftp E) : Handler ftp (Transcript E)
  | t, .connect ch host port =>
      match h t.env (.connect ch host port) with
      | (.ok _, e) => (.ok ⟨t.next⟩, ⟨e, t.next + 1, t.log ++ [.opened ch t.next]⟩)
      | (.error x, e) => (.error x, ⟨e, t.next, t.log ++ [.failed ch]⟩)
  | t, o => ((h t.env o).1, ⟨(h t.env o).2, t.next, t.log ++ events o⟩)

/-- The log only grows. -/
theorem recording_log (h : Handler ftp E) (t : Transcript E) (o : FtpOp) :
    t.log <+: (recording h t o).2.log := by
  unfold recording
  split
  · split <;> exact List.prefix_append _ _
  · exact List.prefix_append _ _

/-- The transcript before the first call. -/
def Transcript.fresh (e : E) : Transcript E := ⟨e, 0, []⟩

/-- The states between two calls of a new object, in the environment `h`. -/
abbrev Run (h : Handler ftp E) (fl : Flavour) (b : FTPBlob) (fuel : Nat) :
    FTPBlob.State → Transcript E → Prop :=
  Program.Reachable (recording h) (fl.backend b fuel).perform fun st t =>
    st = b.start ∧ ∃ e, t = .fresh e

/-- What all calls preserve holds in every state of a run. -/
theorem Run.invariant {h : Handler ftp E} {fl : Flavour} {b : FTPBlob} {fuel : Nat}
    {J : FTPBlob.State → Transcript E → Prop} (hinit : ∀ e, J b.start (.fresh e))
    (hstep : ∀ c, Program.Preserves (recording h) J ((fl.backend b fuel).perform c))
    {st : FTPBlob.State} {t : Transcript E} (hr : Run h fl b fuel st t) : J st t := by
  apply Program.Reachable.invariant _ _ hr
  · rintro _ _ ⟨rfl, e, rfl⟩
    exact hinit e
  · exact fun c st t hJ => Program.wp_mono (hstep c st t hJ) fun _ _ _ h _ => h

/-! ## The control connections -/

/-- What an event hands to the control connection `id`. -/
def Event.octets (id : Nat) : Event → Bytes
  | .sent .control i b => if i = id then b else []
  | _ => []

/-- The command that an event announces on the control connection `id`. -/
def Event.command (id : Nat) : Event → Option Str
  | .asked i cmd => if i = id then some cmd else none
  | _ => none

/-- The octets handed to the control connection `id`. -/
def octets (id : Nat) (log : List Event) : Bytes := log.flatMap (Event.octets id)

/-- The arguments of `_cmd` on the control connection `id`. -/
def commands (id : Nat) (log : List Event) : List Str := log.filterMap (Event.command id)

@[simp] theorem octets_append (id : Nat) (l₁ l₂ : List Event) :
    octets id (l₁ ++ l₂) = octets id l₁ ++ octets id l₂ := List.flatMap_append

@[simp] theorem commands_append (id : Nat) (l₁ l₂ : List Event) :
    commands id (l₁ ++ l₂) = commands id l₁ ++ commands id l₂ := List.filterMap_append

end GufoBlob.Ftp
