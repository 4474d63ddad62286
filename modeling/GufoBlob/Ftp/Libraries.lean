import GufoBlob.Ftp.Agreement
import Mathlib.Algebra.Order.Ring.Rat
import Mathlib.Tactic.Linarith
import Mathlib.Tactic.NormNum.Ineq

/-!
# The libraries under the two classes

The sync `FTPBlob` connects with `socket.create_connection` and waits with `time.sleep`, the async
one with `asyncio.open_connection` inside `wait_for` and with `asyncio.sleep`. These check their
arguments, the port and the two timeouts, and they do not check them alike.

* `sockets`, `streams` — the environment of the sync and of the async class over one network.
* `agree` — for every machine and every sequence of calls without `close`, the two classes send the
  same octets, and every call ends in the same way, as long as the timeouts are in range and an
  address goes with a port that exists.
* `not_agree` — outside of that they do not.
-/

namespace GufoBlob

open Text Interaction Program Ftp FTPBlob

namespace Ftp

/-! ## Arguments that only the libraries read -/

/-- `timeout` and `retry_timeout` of the constructor. -/
structure Timeouts where
  timeout : Rat
  retryTimeout : Rat

/-- A duration that fits into 64 bits as a number of nanoseconds. -/
def FitsClock (t : Rat) : Prop := -2 ^ 63 ≤ t * 10 ^ 9 ∧ t * 10 ^ 9 < 2 ^ 63

instance (t : Rat) : Decidable (FitsClock t) := inferInstanceAs (Decidable (_ ∧ _))

def retryRange : Rat := 1 / 5

/-- What the libraries do besides talking to the network, in the world `W`. -/
structure Libraries (W : Type) where
  /-- `asyncio` takes the host for an address and does not look it up. -/
  isAddress : Str → Bool
  /-- `socket.getaddrinfo`: the port that is found for a host and a port. -/
  getaddrinfo : Str → Nat → Except IOErr Nat
  /-- `random.random()`. -/
  random : W → Rat
  getaddrinfo_le : ∀ {host port found}, getaddrinfo host port = .ok found → found ≤ 65535
  getaddrinfo_address : ∀ {host port}, isAddress host → port ≤ 65535 →
    getaddrinfo host port = .ok port
  random_nonneg : ∀ w, 0 ≤ random w
  random_lt : ∀ w, random w < 1

/-- The checks of `sock.settimeout`. -/
def settimeout (t : Rat) : Except IOErr Unit :=
  if ¬ FitsClock t then
    .error (.runtime "OverflowError: timestamp too large to convert to C PyTime_t")
  else if t < 0 then .error (.runtime "ValueError: Timeout value out of range")
  else .ok ()

/-- The checks of `time.sleep`. -/
def sleep (t : Rat) : Except IOErr Unit :=
  if ¬ FitsClock t then
    .error (.runtime "OverflowError: timestamp too large to convert to C PyTime_t")
  else if t < 0 then .error (.runtime "ValueError: sleep length must be non-negative")
  else .ok ()

section Libraries

variable {W : Type} (t : Timeouts) (l : Libraries W)

/-- `self._retry_timeout * (1.0 + offset)`. -/
def delay (w : W) : Rat := t.retryTimeout * (1 + retryRange * (l.random w - 1 / 2))

/-- `socket.create_connection((host, port), timeout=timeout)`. A socket that does not wait reports
that its connection is still in progress. -/
def createConnection (h : Handler ftp W) (ch : Chan) (host : Str) (port : Nat) (w : W) :
    Except IOErr (Sock ch) × W :=
  match l.getaddrinfo host port with
  | .error e => (.error e, w)
  | .ok port =>
      match settimeout t.timeout with
      | .error e => (.error e, w)
      | .ok () =>
          if t.timeout = 0 then (.error (.os "[Errno 115] Operation now in progress"), w)
          else h w (.connect ch host port)

/-- The `time.sleep` after an attempt to connect that raised an `OSError`. -/
def slept (w : W) : {ch : Chan} → Except IOErr (Sock ch) → Except IOErr (Sock ch)
  | .control, .error (.runtime e) => .error (.runtime e)
  | .control, .error e =>
      match sleep (delay t l w) with
      | .error e => .error e
      | .ok () => .error e
  | _, r => r

/-- The environment of the sync class over the network `h`. -/
def sockets (h : Handler ftp W) : Handler ftp W
  | w, .connect ch host port =>
      (slept t l w (createConnection t l h ch host port w).1,
        (createConnection t l h ch host port w).2)
  | w, o => h w o

/-- `_ensure_resolved`. -/
def ensureResolved (host : Str) (port : Nat) : Except IOErr Nat :=
  if l.isAddress host then .ok port else l.getaddrinfo host port

/-- `wait_for(open_connection(host, port), timeout=timeout)`. -/
def openConnection (h : Handler ftp W) (ch : Chan) (host : Str) (port : Nat) (w : W) :
    Except IOErr (Sock ch) × W :=
  if t.timeout ≤ 0 then (.error (.timeout ""), w)
  else
    match ensureResolved l host port with
    | .error e => (.error e, w)
    | .ok port =>
        if 65535 < port then
          (.error (.runtime "OverflowError: connect(): port must be 0-65535."), w)
        else h w (.connect ch host port)

/-- The environment of the async class over the network `h`; `asyncio.sleep` takes every delay. -/
def streams (h : Handler ftp W) : Handler ftp W
  | w, .connect ch host port => openConnection t l h ch host port w
  | w, o => h w o

end Libraries

/-- Timeouts that both libraries take, and that leave them time to connect. -/
structure Timeouts.InRange (t : Timeouts) : Prop where
  timeout_pos : 0 < t.timeout
  timeout_lt : t.timeout * 10 ^ 9 < 2 ^ 63
  retryTimeout_nonneg : 0 ≤ t.retryTimeout
  retryTimeout_lt : t.retryTimeout * 11 / 10 * 10 ^ 9 < 2 ^ 63

/-! ## In range, the environments are one -/

section InRange

variable {W : Type} {t : Timeouts} {l : Libraries W} (ht : t.InRange)

include ht

theorem settimeout_ok : settimeout t.timeout = .ok () := by
  have hpos := ht.timeout_pos
  have hlt := ht.timeout_lt
  have hfits : FitsClock t.timeout := ⟨by linarith, hlt⟩
  unfold settimeout
  rw [if_neg (not_not_intro hfits), if_neg (not_lt.mpr hpos.le)]

theorem sleep_delay (w : W) : sleep (delay t l w) = .ok () := by
  have hnonneg := ht.retryTimeout_nonneg
  have hlt := ht.retryTimeout_lt
  have hrandom := l.random_nonneg w
  have hrandom_lt := l.random_lt w
  -- the factor is between nine and eleven tenths
  have hlow : 0 ≤ 1 + retryRange * (l.random w - 1 / 2) := by
    unfold retryRange
    linarith
  have hhigh : 1 + retryRange * (l.random w - 1 / 2) ≤ 11 / 10 := by
    unfold retryRange
    linarith
  have hdelay : 0 ≤ delay t l w := mul_nonneg hnonneg hlow
  have hdelay_le : delay t l w ≤ t.retryTimeout * (11 / 10) :=
    mul_le_mul_of_nonneg_left hhigh hnonneg
  have hfits : FitsClock (delay t l w) := ⟨by linarith, by linarith⟩
  unfold sleep
  rw [if_neg (not_not_intro hfits), if_neg (not_lt.mpr hdelay)]

theorem slept_eq (w : W) {ch : Chan} (r : Except IOErr (Sock ch)) : slept t l w r = r := by
  unfold slept
  rw [sleep_delay ht]
  cases ch with
  | control =>
      cases r with
      | ok s => rfl
      | error e => cases e <;> rfl
  | data => rfl

/-- Where an address goes with a port that exists, both libraries connect alike. -/
theorem sockets_connect (h : Handler ftp W) (ch : Chan) {host : Str} {port : Nat}
    (hport : l.isAddress host → port ≤ 65535) (w : W) :
    sockets t l h w (.connect ch host port) = streams t l h w (.connect ch host port) := by
  have hresolved : ensureResolved l host port = l.getaddrinfo host port := by
    unfold ensureResolved
    split
    · next haddress => exact (l.getaddrinfo_address haddress (hport haddress)).symm
    · rfl
  have hcreate : createConnection t l h ch host port w = openConnection t l h ch host port w := by
    unfold createConnection openConnection
    rw [settimeout_ok ht, if_neg (not_le.mpr ht.timeout_pos), hresolved]
    cases hfound : l.getaddrinfo host port with
    | error e => rfl
    | ok found =>
        dsimp only
        rw [if_neg ht.timeout_pos.ne', if_neg (not_lt.mpr (l.getaddrinfo_le hfound))]
  show (slept t l w _, (createConnection t l h ch host port w).2) = _
  rw [slept_eq ht]
  exact hcreate

/-! ## The calls of the sync class -/

variable {h : Handler ftp W}

/-- The program runs alike under the two libraries. -/
abbrev RunsAlike (t : Timeouts) (l : Libraries W) (h : Handler ftp W) {α : Type} (p : FtpProg α) :
    Prop := p.run (sockets t l h) = p.run (streams t l h)

omit ht in
theorem runsAlike_call {α : Type} {o : FtpOp} {k : ftp.Ans o → FtpProg α}
    (ho : ∀ w, sockets t l h w o = streams t l h w o) (hk : ∀ r, RunsAlike t l h (k r)) :
    RunsAlike t l h (.call o k) := by
  funext st w
  show (k (sockets t l h w o).1).run _ st (sockets t l h w o).2 = _
  rw [ho w, hk]
  rfl

omit ht in
theorem runsAlike_sockets : Sockets (RunsAlike t l h) where
  toCompositional := run_eq_compositional _ _
  call o k ho hk := by
    refine runsAlike_call (fun w => ?_) hk
    cases o with
    | connect ch host port => exact absurd ho id
    | _ => rfl

omit ht in
theorem runsAlike_commands {fl : Flavour} {conn : FtpProg (Option (Sock .control))}
    (hconn : RunsAlike t l h conn) :
    Commands (RunsAlike t l h) fl.dialect conn fun _ => True where
  toCompositional := run_eq_compositional _ _
  connection := hconn
  read := rfl
  setBuffer _ := rfl
  appendBuffer _ := rfl
  recv s := recv_of runsAlike_sockets fl s
  transmit s c _ := by
    apply (run_eq_compositional _ _).bind (runsAlike_call (fun _ => rfl) fun _ => rfl)
    intro _
    cases fl with
    | sync => exact runsAlike_call (fun _ => rfl) (raiseOnError_of runsAlike_sockets)
    | aio =>
        apply runsAlike_call fun _ => rfl
        exact fun _ => runsAlike_call (fun _ => rfl) (raiseOnError_of runsAlike_sockets)
  answered _ _ _ := runsAlike_call (fun _ => rfl) fun _ => rfl

theorem runsAlike_connect (ch : Chan) {host : Str} {port : Nat}
    (hport : l.isAddress host → port ≤ 65535) : RunsAlike t l h (connect ch host port) :=
  runsAlike_call (sockets_connect ht h ch hport) fun _ => rfl

variable {b : FTPBlob} {fuel : Nat} (hport : l.isAddress b.host → b.port ≤ 65535)

include hport

theorem runsAlike_connection (fl : Flavour) : RunsAlike t l h (fl.connection b fuel) :=
  connection_of (run_eq_compositional _ _) (fun _ hconn => runsAlike_commands hconn)
    (fun _ _ => trivial) (runsAlike_connect ht .control hport) (fun _ => rfl)
    (dropConn_of runsAlike_sockets fl) fuel

theorem runsAlike_perform (fl : Flavour) {c : Call} (hc : c ≠ .close) :
    RunsAlike t l h ((fl.backend b fuel).perform c) := by
  have hP : Compositional (RunsAlike t l h) := run_eq_compositional _ _
  have hcommands : Commands (RunsAlike t l h) fl.dialect (fl.connection b fuel) fun _ => True :=
    runsAlike_commands (runsAlike_connection ht hport fl)
  have htransfers :
      Transfers (RunsAlike t l h) fl.dialect fuel (fl.connection b fuel) fun _ => True :=
    { toCompositional := hP
      cmd := fun _ hc => cmd_of hcommands hc
      expect := expect_of hcommands.toReads
      connectData := fun _ _ hle => runsAlike_connect ht .data fun _ => hle
      recvData := recv_of runsAlike_sockets fl
      sendData := sendData_of runsAlike_sockets fl
      closeData := closeData_of runsAlike_sockets fl }
  have hfeatures : RunsAlike t l h (features fl.dialect fuel (fl.connection b fuel)) :=
    features_of hP rfl (cmd_of hcommands trivial) fun _ => rfl
  apply perform_of (methods_of htransfers (runsAlike_connection ht hport fl) fun _ => hfeatures)
  · exact fun heq => absurd heq hc
  · exact fun _ _ => trivial

end InRange

end Ftp

namespace FTPBlob

/-! ## Runs -/

section Runs

variable {S : Type}

theorem faultless_streams {W : Type} (t : Timeouts) (l : Libraries W) {h : Handler ftp W}
    (hf : Faultless h) : Faultless (streams t l h) where
  sendall w _ s b := hf.sendall w s b
  drain w _ s := hf.drain w s
  wait w _ s := hf.wait w s
  close w _ s := hf.close w s
  waitClosed w _ s := hf.waitClosed w s

/-- The two classes agree: with every server, after every sequence of calls without `close`, the
calls have ended in the same way, the same octets were sent in the same order, and the objects and
the server are in the same state. -/
theorem agree (m : Server S) (b : FTPBlob) (t : Timeouts) (l : Libraries (S × List Sent))
    (fuel : Nat) {cs : List Call} (ht : t.InRange) (hport : l.isAddress b.host → b.port ≤ 65535)
    (hcs : .close ∉ cs) (x : S) :
    runCalls (sockets t l (serving m)) (Sync.FTPBlob.backend b fuel).perform cs b.start (x, []) =
      runCalls (streams t l (serving m)) (Aio.FTPBlob.backend b fuel).perform cs b.start
        (x, []) := by
  apply runCalls_congr
  intro c hc
  have hne : c ≠ .close := fun heq => hcs (heq ▸ hc)
  calc ((Sync.FTPBlob.backend b fuel).perform c).run (sockets t l (serving m))
      = ((Flavour.sync.backend b fuel).perform c).run (sockets t l (serving m)) :=
        run_backend_sync b fuel _ c
    _ = ((Flavour.sync.backend b fuel).perform c).run (streams t l (serving m)) :=
        runsAlike_perform ht hport .sync hne
    _ = ((Sync.FTPBlob.backend b fuel).perform c).run (streams t l (serving m)) :=
        (run_backend_sync b fuel _ c).symm
    _ = ((Aio.FTPBlob.backend b fuel).perform c).run (streams t l (serving m)) :=
        run_backend_eq (faultless_streams t l (faultless_serving m)) b fuel hne

/-- The server that sends what is written in the script on its control connections. -/
def scriptServer : Server (List Bytes) where
  connect l _ _ _ := (.ok ⟨0⟩, l)
  receive l _ _ _ := l
  send := fun l {ch} _ =>
    match ch, l with
    | .control, x :: l => (x, l)
    | _, l => ([], l)
  shutdown l _ _ := l
  close l _ _ := l

/-- Libraries on a machine where every host is an address: a port is a `long` of which the network
takes the lowest 16 bits. -/
def addresses {W : Type} : Libraries W where
  isAddress _ := true
  getaddrinfo _ port :=
    if port < 2 ^ 63 then .ok (port % 65536)
    else .error (.runtime "OverflowError: Python int too large to convert to C long")
  random _ := 1 / 2
  getaddrinfo_le h := by
    split at h
    · obtain rfl := Except.ok.inj h
      omega
    · cases h
  getaddrinfo_address _ h := by
    rw [if_pos (by omega), Nat.mod_eq_of_lt (by omega)]
  random_nonneg _ := by norm_num
  random_lt _ := by norm_num

theorem inRange_defaults : (Timeouts.mk 30 1).InRange := by
  constructor <;> norm_num

theorem agree_delete :
    runCalls (sockets ⟨30, 1⟩ addresses (serving scriptServer))
        (Sync.FTPBlob.backend anonymous 2).perform [.open', .delete ['a']] anonymous.start
        (loginScript anonymous ++ [line "250 ." ++ crlf], []) =
      runCalls (streams ⟨30, 1⟩ addresses (serving scriptServer))
        (Aio.FTPBlob.backend anonymous 2).perform [.open', .delete ['a']] anonymous.start
        (loginScript anonymous ++ [line "250 ." ++ crlf], []) :=
  agree scriptServer anonymous ⟨30, 1⟩ addresses 2 inRange_defaults (fun _ => by decide)
    (by decide) _

/-- Of a port that does not exist the sync class takes the lowest 16 bits, and a negative timeout is
an error of its own for it. -/
theorem not_agree :
    ((runCalls (sockets ⟨30, 1⟩ addresses (serving scriptServer))
          (Sync.FTPBlob.backend { anonymous with port := 65557 } 2).perform [.open']
          anonymous.start (loginScript anonymous, [])).1 = [.ok .none] ∧
      (runCalls (streams ⟨30, 1⟩ addresses (serving scriptServer))
          (Aio.FTPBlob.backend { anonymous with port := 65557 } 2).perform [.open']
          anonymous.start (loginScript anonymous, [])).1 =
        [.error (.ioError (.runtime "OverflowError: connect(): port must be 0-65535."))]) ∧
    (runCalls (sockets ⟨-1, 1⟩ addresses (serving scriptServer))
          (Sync.FTPBlob.backend anonymous 2).perform [.open'] anonymous.start
          (loginScript anonymous, [])).1 =
        [.error (.ioError (.runtime "ValueError: Timeout value out of range"))] ∧
      (runCalls (streams ⟨-1, 1⟩ addresses (serving scriptServer))
          (Aio.FTPBlob.backend anonymous 2).perform [.open'] anonymous.start
          (loginScript anonymous, [])).1 =
        [.error (.blobError "failed to connect after 3: FTP connection timeout: ")] := by
  decide +kernel

end Runs

end FTPBlob

end GufoBlob
