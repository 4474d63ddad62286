import GufoBlob.Ftp.Script
import GufoBlob.Interaction.Ends

/-!
# The errors of the sync class

What the operations of `gufo.blob.sync.ftp.FTPBlob` raise, whatever octets the server sends on its
connections and whichever socket calls raise an `OSError`. Every malformed reply and listing becomes
a `BlobError` with one exception: `from_feat` takes the first word of every line that is not empty,
and a line of white space has no word.

* `expected_iff` — an operation returns, raises `KeyError` or raises `BlobError` exactly when it has
  not read a reply to `FEAT` with the code 211 and a line of white space in it.
* `not_expected_blank` — such a reply makes `exists` raise `IndexError`.
-/

namespace GufoBlob.FTPBlob

open Text Interaction Program Ftp

variable {W : Type}

/-! ## Exceptions -/

/-- An `OSError`, which `RuntimeError` is not. -/
def IsOSError : PyExc → Prop
  | .ioError (.runtime _) => False
  | .ioError _ => True
  | _ => False

def IsBlobError : PyExc → Prop
  | .blobError _ => True
  | _ => False

/-- The exceptions that the documentation announces. -/
def Announced : PyExc → Prop
  | .blobError _ => True
  | .keyError _ => True
  | _ => False

/-- The operation returned or raised an exception that the documentation announces. -/
def Expected {α : Type} : Outcome PyExc α → Prop
  | .ok _ => True
  | .error e => Announced e
  | .spun => False

theorem announced_of_isBlobError {e : PyExc} (he : IsBlobError e) : Announced e := by
  cases e <;> trivial

/-! ## What the parsers raise -/

theorem bytesToInt_error {x : Bytes} {e : PyExc} (h : bytesToInt x = .error e) : IsBlobError e := by
  unfold bytesToInt at h
  split at h
  · cases h
  · obtain rfl := Except.error.inj h
    trivial

theorem bytesToIntRange_error {x : Bytes} {lo hi : Int} {e : PyExc}
    (h : bytesToIntRange x lo hi = .error e) : IsBlobError e := by
  unfold bytesToIntRange at h
  rcases except_bind_eq_error h with h | ⟨n, -, h⟩
  · exact bytesToInt_error h
  · simp only [Bind.bind, Except.bind, Pure.pure, Except.pure, throw, throwThe,
      MonadExceptOf.throw] at h
    grind [IsBlobError]

theorem bytesToOctet_error {x : Bytes} {e : PyExc} (h : bytesToOctet x = .error e) :
    IsBlobError e := by
  unfold bytesToOctet at h
  rcases except_bind_eq_error h with h | ⟨n, -, h⟩
  · exact bytesToInt_error h
  · simp only [Bind.bind, Except.bind, Pure.pure, Except.pure, throw, throwThe,
      MonadExceptOf.throw] at h
    grind [IsBlobError]

theorem mapM_error {α β : Type} {φ : PyExc → Prop} {f : α → Except PyExc β}
    (hf : ∀ a e, f a = .error e → φ e) {l : List α} {e : PyExc} (h : l.mapM f = .error e) : φ e := by
  induction l with
  | nil => cases h
  | cons a l ih =>
      rw [List.mapM_cons] at h
      rcases except_bind_eq_error h with h | ⟨b, -, h⟩
      · exact hf a e h
      · rcases except_bind_eq_error h with h | ⟨bs, -, h⟩
        · exact ih h
        · cases h

theorem parsePasv_error {line : Bytes} {e : PyExc} (h : parsePasv line = .error e) :
    IsBlobError e := by
  unfold parsePasv at h
  split at h
  · obtain rfl := Except.error.inj h
    trivial
  · next numbers _ =>
      cases hnumbers : numbers.mapM bytesToOctet with
      | ok octets => rw [hnumbers] at h; cases h
      | error e' =>
          rw [hnumbers] at h
          obtain rfl := Except.error.inj h
          exact mapM_error (fun _ _ => bytesToOctet_error) hnumbers

theorem decodeName_error {b : Bytes} {text : String} {e : PyExc}
    (h : decodeName b text = .error e) : IsBlobError e := by
  unfold decodeName at h
  split at h
  · cases h
  · obtain rfl := Except.error.inj h
    trivial

/-- A parser of listings raises nothing but `BlobError`. -/
def RaisesBlobError (parser : Bytes → Except PyExc (Str × Bool)) : Prop :=
  ∀ line e, parser line = .error e → IsBlobError e

theorem parseListLine_raises : RaisesBlobError parseListLine := by
  intro line e h
  unfold parseListLine at h
  split at h
  · obtain rfl := Except.error.inj h
    trivial
  · rcases except_bind_eq_error h with h | ⟨name, -, h⟩
    · exact decodeName_error h
    · cases h

theorem parseMlsdLine_raises : RaisesBlobError parseMlsdLine := by
  intro line e h
  unfold parseMlsdLine at h
  rcases except_bind_eq_error h with h | ⟨name, -, h⟩
  · exact decodeName_error h
  · cases h

/-- A line of a reply to `FEAT` in which `from_feat` finds no first word. -/
def isBlank (line : Bytes) : Bool := !line.isEmpty && (words line).isEmpty

theorem addFeature_error_iff {f : FTPFeatures} {line : Bytes} {e : PyExc} :
    addFeature f line = .error e ↔ isBlank line = true ∧ e = .indexError := by
  unfold addFeature isBlank
  grind

/-- `from_feat` raises `IndexError` on such a line, and nothing else. -/
theorem fromFeat_error_iff {lines : List Bytes} {e : PyExc} :
    fromFeat lines = .error e ↔ lines.any isBlank = true ∧ e = .indexError := by
  unfold fromFeat
  generalize ({} : FTPFeatures) = f
  induction lines generalizing f with
  | nil => exact ⟨nofun, nofun⟩
  | cons line lines ih =>
      rw [List.foldlM_cons, List.any_cons, Bool.or_eq_true]
      cases hline : addFeature f line with
      | error e' =>
          obtain ⟨hblank, rfl⟩ := addFeature_error_iff.mp hline
          exact ⟨fun h => ⟨.inl hblank, (Except.error.inj h).symm⟩, fun h => h.2 ▸ rfl⟩
      | ok f' =>
          have hblank : ¬ isBlank line = true := by
            intro hblank
            rw [(addFeature_error_iff (f := f)).mpr ⟨hblank, rfl⟩] at hline
            cases hline
          show (lines.foldlM addFeature f') = .error e ↔ _
          rw [ih f']
          exact and_congr_left' ⟨.inr, fun h => h.resolve_left hblank⟩

/-! ## The environment -/

/-- What a server that sends finitely many octets may do: `left` bounds the octets that it has not
sent yet. -/
structure Finite (h : Handler ftp W) (left : W → Nat) : Prop where
  recv : ∀ (ch : Chan) (s : Sock ch) w data, (h w (.recv s)).1 = .ok data →
    data.length + left (h w (.recv s)).2 ≤ left w
  other : ∀ w o, left (h w o).2 ≤ left w

/-- The answer of a socket call is no exception but an `OSError`. -/
def Raisable {α : Type} (r : Except IOErr α) : Prop := ∀ e, r ≠ .error (.runtime e)

/-- Socket calls raise nothing but an `OSError`. -/
structure OSErrors (h : Handler ftp W) : Prop where
  connect : ∀ w ch host port, Raisable (h w (.connect ch host port)).1
  sendall : ∀ w (ch : Chan) (s : Sock ch) b, Raisable (h w (.sendall s b)).1
  recv : ∀ w (ch : Chan) (s : Sock ch), Raisable (h w (.recv s)).1
  shutdown : ∀ w (ch : Chan) (s : Sock ch), Raisable (h w (.shutdown s)).1
  close : ∀ w (ch : Chan) (s : Sock ch), Raisable (h w (.close s)).1

/-- A reply to `FEAT` that `from_feat` raises `IndexError` on. -/
def spoils : FtpOp → Bool
  | .answered c code lines => c = featCmd && code = status && lines.any isBlank
  | _ => false

/-- The environment, with the information whether such a reply has been read. -/
def watching (h : Handler ftp W) : Handler ftp (W × Bool) := fun w o =>
  ((h w.1 o).1, (h w.1 o).2, w.2 || spoils o)

/-- No such reply was read, what `_sock` holds satisfies `c`, and fewer than `m` octets are buffered
or still to come. -/
def Within (left : W → Nat) (c : Option (Sock .control) → Prop) (m : Nat) (st : State)
    (w : W × Bool) : Prop :=
  c st.conn ∧ w.2 = false ∧ st.responseBuffer.length + left w.1 < m

variable {h : Handler ftp W} {left : W → Nat} {c : Option (Sock .control) → Prop} {m : Nat}
  {st : State} {w : W × Bool}

theorem Within.mono {n : Nat} (hw : Within left c m st w) (hmn : m ≤ n) : Within left c n st w :=
  ⟨hw.1, hw.2.1, Nat.lt_of_lt_of_le hw.2.2 hmn⟩

theorem Within.weaken {c' : Option (Sock .control) → Prop} (hw : Within left c m st w)
    (hc : ∀ s, c s → c' s) : Within left c' m st w := ⟨hc _ hw.1, hw.2⟩

theorem isOSError_of_raisable {α : Type} {r : Except IOErr α} {e : IOErr} (hr : Raisable r)
    (he : r = .error e) : IsOSError (.ioError e) := by
  cases e with
  | runtime e => exact absurd he (hr e)
  | _ => trivial

/-- The octets still to come never become more. -/
theorem left_stable (hfin : Finite h left) (k : Nat) (w : W × Bool) (o : FtpOp)
    (hw : left w.1 ≤ k) : left (watching h w o).2.1 ≤ k :=
  Nat.le_trans (hfin.other w.1 o) hw

/-- A call that spoils nothing keeps the bounds. -/
theorem Within.call (hfin : Finite h left) (hw : Within left c m st w) {o : FtpOp}
    (ho : spoils o = false) : Within left c m st (watching h w o).2 := by
  obtain ⟨hc, hflag, hm⟩ := hw
  refine ⟨hc, ?_, ?_⟩
  · show (w.2 || spoils o) = false
    rw [hflag, ho]
    rfl
  · exact Nat.lt_of_le_of_lt (Nat.add_le_add_left (hfin.other w.1 o) _) hm

theorem ends_suppressOSError {ψ : PyExc → Prop} {p : FtpProg Unit}
    (hp : Ends False (watching h) (Within left c m) (Raises IsOSError (Within left c m)) (fun _ => True)
      p) :
    Ends False (watching h) (Within left c m) (Raises ψ (Within left c m)) (fun _ => True)
      (suppressOSError p) := by
  apply ends_tryCatch hp
  intro e he
  split
  · exact he.elim
  · exact ends_pure trivial
  · next hne => cases e <;> first | exact he.elim | exact absurd rfl (hne _)

/-- Of `k` octets to come some were received; with them the buffer is still within the bound. -/
def receivedPost (left : W → Nat) (c : Option (Sock .control) → Prop) (m k : Nat)
    (φ : PyExc → Prop) : Outcome PyExc Bytes → State → W × Bool → Prop
  | .ok data => fun st w =>
      Within left c m { st with responseBuffer := st.responseBuffer ++ data } w ∧
        data.length + left w.1 ≤ k
  | .error e => Raises φ (Within left c m) e
  | .spun => fun _ _ => False

section Sockets

variable (hfin : Finite h left) (hos : OSErrors h)

include hfin hos

/-- What `recv` delivers was still to come. -/
theorem wp_recv_within (ch : Chan) (s : Sock ch) (hw : Within left c m st w) :
    wp (watching h) (Sync.FTPBlob.dialect.recv s) (receivedPost left c m (left w.1) IsOSError)
      st w := by
  have hkept : Within left c m st (watching h w (.recv s)).2 := hw.call hfin rfl
  unfold Sync.FTPBlob.dialect
  rw [wp_call, wp_raiseOnError]
  cases hr : (watching h w (.recv s)).1 with
  | error e => exact ⟨isOSError_of_raisable (hos.recv w.1 ch s) hr, hkept⟩
  | ok data =>
      have hle : data.length + left (watching h w (.recv s)).2.1 ≤ left w.1 :=
        hfin.recv ch s w.1 data hr
      refine ⟨⟨hkept.1, hkept.2.1, ?_⟩, hle⟩
      have := hw.2.2
      rw [List.length_append]
      omega

omit hos in
/-- A call on a socket whose answer is raised. -/
theorem ends_socketCall {φ : PyExc → Prop} {o : FtpOp} (ho : spoils o = false)
    {r : W → Except IOErr Unit} (hr : ∀ w, Raisable (r w)) (hφ : ∀ e, IsOSError e → φ e)
    {k : ftp.Ans o → FtpProg Unit} (hk : ∀ w, k (h w o).1 = raiseOnError (r w)) :
    Ends False (watching h) (Within left c m) (Raises φ (Within left c m)) (fun _ => True)
      (.call o k) := by
  intro st w hw
  show wp (watching h) (k (h w.1 o).1) _ st (watching h w o).2
  have hkept : Within left c m st (watching h w o).2 := hw.call hfin ho
  rw [hk, wp_raiseOnError]
  cases hans : r w.1 with
  | ok a => exact ⟨trivial, hkept⟩
  | error e => exact ⟨hφ _ (isOSError_of_raisable (hr w.1) hans), hkept⟩

theorem ends_send {ch : Chan} (s : Sock ch) (b : Bytes) :
    Ends False (watching h) (Within left c m) (Raises IsOSError (Within left c m)) (fun _ => True)
      (Sync.FTPBlob.dialect.send s b) :=
  ends_socketCall hfin rfl (fun w => hos.sendall w ch s b) (fun _ he => he) fun _ => rfl

theorem ends_closeSock {ψ : PyExc → Prop} {ch : Chan} (s : Sock ch) :
    Ends False (watching h) (Within left c m) (Raises ψ (Within left c m)) (fun _ => True)
      (Sync.FTPBlob.closeSock s) := by
  apply ends_suppressOSError
  exact ends_socketCall hfin rfl (fun w => hos.close w ch s) (fun _ he => he) fun _ => rfl

theorem ends_closeData {ψ : PyExc → Prop} (s : Sock .data) :
    Ends False (watching h) (Within left c m) (Raises ψ (Within left c m)) (fun _ => True)
      (Sync.FTPBlob.dialect.closeData s) := by
  refine ends_bind (R := fun _ => True) ?_ fun _ _ => ends_closeSock hfin hos s
  apply ends_suppressOSError
  exact ends_socketCall hfin rfl (fun w => hos.shutdown w _ s) (fun _ he => he) fun _ => rfl

end Sockets

/-! ## Replies -/

/-- `p` ends and keeps the bounds; what it raises satisfies `φ`. -/
abbrev Safe (h : Handler ftp W) (left : W → Nat) (c : Option (Sock .control) → Prop) (m : Nat)
    (φ : PyExc → Prop) {α : Type} (p : FtpProg α) : Prop :=
  Ends False (watching h) (Within left c m) (Raises φ (Within left c m)) (fun _ => True) p

theorem endsPost_succ {φ : PyExc → Prop} {α : Type} {R : α → Prop} {o : Outcome PyExc α}
    (ho : endsPost False (Within left c m) (Raises φ (Within left c m)) R o st w) :
    endsPost False (Within left c (m + 1)) (Raises φ (Within left c (m + 1))) R o st w := by
  cases o with
  | ok a => exact ⟨ho.1, ho.2.mono (Nat.le_succ m)⟩
  | error e => exact ⟨ho.1, ho.2.mono (Nat.le_succ m)⟩
  | spun => exact ho

/-- The property `connection` returns a socket or raises `BlobError`. -/
def Usable (h : Handler ftp W) (left : W → Nat) (c : Option (Sock .control) → Prop) (fuel : Nat)
    (conn : FtpProg (Option (Sock .control))) : Prop :=
  ∀ m ≤ fuel, Ends False (watching h) (Within left c m) (Raises IsBlobError (Within left c m))
    (fun s => s.isSome = true) conn

/-- An error of the property, or one of a socket. -/
def Lost (e : PyExc) : Prop := IsOSError e ∨ IsBlobError e

theorem readError_of_lost {e : PyExc} (he : Lost e) :
    ∃ msg, readError e = .raise (.blobError msg) := by
  unfold readError
  split
  · exact ⟨_, rfl⟩
  · exact ⟨_, rfl⟩
  · exact ⟨_, rfl⟩
  · cases e with
    | blobError msg => exact ⟨msg, rfl⟩
    | ioError e => cases e <;> grind [Lost, IsOSError, IsBlobError]
    | _ => exact he.elim False.elim False.elim

theorem sendFailed_of_lost {e : PyExc} (he : Lost e) :
    ∃ msg, sendFailed Sync.FTPBlob.dialect e = .raise (.blobError msg) := by
  cases e with
  | blobError msg => exact ⟨msg, rfl⟩
  | ioError e =>
      cases e with
      | runtime e => exact he.elim False.elim False.elim
      | _ => exact ⟨_, rfl⟩
  | _ => exact he.elim False.elim False.elim

/-- A line was taken out of fewer than `m + 1` octets. -/
def linePost (left : W → Nat) (c : Option (Sock .control) → Prop) (m : Nat) :
    Outcome PyExc Bytes → State → W × Bool → Prop
  | .ok _ => Within left c m
  | .error e => Raises IsBlobError (Within left c (m + 1)) e
  | .spun => fun _ _ => False

section Replies

variable (hfin : Finite h left) (hos : OSErrors h) {fuel : Nat}
  {conn : FtpProg (Option (Sock .control))} (hconn : Usable h left c fuel conn) (hm : m ≤ fuel)

include hfin hos hconn hm

theorem wp_receive_within (hw : Within left c m st w) :
    wp (watching h) (receive Sync.FTPBlob.dialect conn)
      (receivedPost left c m (left w.1) IsBlobError) st w := by
  have hleft : wp (watching h) conn (fun _ _ w' => left w'.1 ≤ left w.1) st w :=
    preserves_of_stable (J := fun w' => left w'.1 ≤ left w.1) (left_stable hfin _) conn st w
      Nat.le.refl
  have hcaught : ∀ e st' w', Lost e → Within left c m st' w' →
      wp (watching h) (readError e) (receivedPost left c m (left w.1) IsBlobError) st' w' := by
    intro e st' w' he hw'
    obtain ⟨msg, hmsg⟩ := readError_of_lost he
    rw [hmsg]
    exact ⟨trivial, hw'⟩
  unfold receive
  rw [wp_tryCatch, bind_eq, wp_bind]
  apply wp_mono (wp_and (hconn m hm st w hw) hleft)
  rintro (s | e | _) st' w' ⟨ho, hleft⟩
  · obtain ⟨hsome, hw'⟩ := ho
    cases s with
    | none => cases hsome
    | some s =>
        rw [bindPost_ok]
        apply wp_mono (wp_recv_within hfin hos .control s hw')
        rintro (data | e | _) st'' w'' ho
        · exact ⟨ho.1, Nat.le_trans ho.2 hleft⟩
        · exact hcaught e st'' w'' (.inl ho.1) ho.2
        · exact ho
  · exact hcaught e st' w' (.inr ho.1) ho.2
  · exact ho

omit hm in
/-- A line takes octets from the bound. The induction is on the fuel: each turn of the loop receives
an octet, and there are fewer to come than turns. -/
theorem wp_readLineLoop_within (hm : m + 1 ≤ fuel) {n : Nat} (hn : left w.1 < n)
    (hw : Within left c (m + 1) st w) :
    wp (watching h) (readLineLoop Sync.FTPBlob.dialect conn n) (linePost left c m) st w := by
  induction n generalizing st w with
  | zero => exact absurd hn (Nat.not_lt_zero _)
  | succ n ih =>
      unfold readLineLoop
      rw [bind_eq, wp_bind, wp_read, bindPost_ok]
      cases hcut : cutLine st.responseBuffer with
      | some cut =>
          obtain ⟨line, rest⟩ := cut
          have hlen : rest.length < st.responseBuffer.length := by
            rw [(cutLine_eq_some hcut).1, List.length_append, List.length_append]
            exact Nat.lt_add_of_pos_left (Nat.add_pos_right _ (by decide))
          refine ⟨hw.1, hw.2.1, ?_⟩
          have := hw.2.2
          show rest.length + left w.1 < m
          omega
      -- no line yet: every read takes bytes from what is left
      | none =>
          show wp _ ((receive _ _).bind _) _ _ _
          rw [wp_bind]
          apply wp_mono (wp_receive_within hfin hos hconn hm hw)
          rintro (data | e | _) st' w' ho
          · obtain ⟨hw', hleft⟩ := ho
            rw [bindPost_ok]
            split
            · refine ⟨trivial, hw'.1, hw'.2.1, ?_⟩
              have := hw'.2.2
              rw [List.length_append] at this
              show st'.responseBuffer.length + left w'.1 < m + 1
              omega
            · next hdata =>
                have hpos : 0 < data.length := by
                  cases data with
                  | nil => exact absurd rfl hdata
                  | cons x xs => exact Nat.succ_pos _
                rw [bind_eq, wp_bind, wp_appendBuffer, bindPost_ok]
                exact ih (by omega) hw'
          · exact ho
          · exact ho

omit hm in
theorem wp_readLine_within (hm : m + 1 ≤ fuel) (hw : Within left c (m + 1) st w) :
    wp (watching h) (readLine Sync.FTPBlob.dialect fuel conn) (linePost left c m) st w := by
  apply wp_readLineLoop_within hfin hos hconn hm _ hw
  have := hw.2.2
  omega

/-- Every line takes octets from the bound, so the fuel is enough for all of them. -/
theorem safe_moreLines (first : Bytes) {n : Nat} (hn : m ≤ n) (lines : List Bytes) :
    Safe h left c m IsBlobError (moreLines Sync.FTPBlob.dialect fuel conn first n lines) := by
  induction n generalizing m lines with
  | zero => exact fun st w hw => absurd (Nat.lt_of_lt_of_le hw.2.2 hn) (Nat.not_lt_zero _)
  | succ n ih =>
      intro st w hw
      cases m with
      | zero => exact absurd hw.2.2 (Nat.not_lt_zero _)
      | succ m =>
          unfold moreLines
          rw [bind_eq, wp_bind]
          apply wp_mono (wp_readLine_within hfin hos hconn hm hw)
          rintro (line | e | _) st' w' ho
          · rw [bindPost_ok]
            split
            · exact ⟨trivial, ho.mono (Nat.le_succ m)⟩
            · apply wp_mono (ih (Nat.le_of_succ_le hm) (Nat.le_of_succ_le_succ hn) _ st' w' ho)
              exact fun _ _ _ => endsPost_succ
          · exact ho
          · exact ho

theorem safe_readResponse :
    Safe h left c m IsBlobError (readResponse Sync.FTPBlob.dialect fuel conn) := by
  intro st w hw
  cases m with
  | zero => exact absurd hw.2.2 (Nat.not_lt_zero _)
  | succ m =>
      unfold readResponse
      rw [bind_eq, wp_bind]
      apply wp_mono (wp_readLine_within hfin hos hconn hm hw)
      rintro (first | e | _) st' w' ho
      · have hw' : Within left c (m + 1) st' w' := ho.mono (Nat.le_succ m)
        rw [bindPost_ok]
        split
        · exact ⟨trivial, hw'⟩
        · refine ends_bind (R := fun _ => True)
            (ends_ofExcept (fun _ _ => trivial) fun _ => bytesToIntRange_error) ?_ st' w' hw'
          intro code _
          split
          · refine ends_bind (safe_moreLines hfin hos hconn hm first hm _) ?_
            exact fun _ _ => ends_pure trivial
          · exact ends_pure trivial
      · exact ho
      · exact ho

theorem safe_expect (code : Int) :
    Safe h left c m IsBlobError (expect Sync.FTPBlob.dialect fuel conn code) := by
  refine ends_bind (safe_readResponse hfin hos hconn hm) ?_
  intro r _
  dsimp only
  split
  · exact ends_raise trivial
  · exact ends_pure trivial

theorem safe_sendCmd (x : Str) :
    Safe h left c m IsBlobError (sendCmd Sync.FTPBlob.dialect conn x) := by
  apply ends_tryCatch (φ := Lost)
  · apply ends_bind ((hconn m hm).mono (fun _ _ _ he => ⟨.inr he.1, he.2⟩) fun _ hs => hs)
    intro s hs
    cases s with
    | none => cases hs
    | some s =>
        refine ends_bind (R := fun _ => True) ?_
          fun _ _ => (ends_send hfin hos s _).weaken fun _ => .inl
        intro st w hw
        rw [wp_asked]
        exact ⟨trivial, hw.call hfin rfl⟩
  · intro e he
    obtain ⟨msg, hmsg⟩ := sendFailed_of_lost he
    rw [hmsg]
    exact ends_raise trivial

/-- Only the reply to `FEAT` is looked at. -/
theorem safe_cmd {x : Str} (hx : x ≠ featCmd) :
    Safe h left c m IsBlobError (cmd Sync.FTPBlob.dialect fuel conn x) := by
  refine ends_bind (safe_sendCmd hfin hos hconn hm x) fun _ _ => ?_
  refine ends_bind (safe_readResponse hfin hos hconn hm) fun r _ => ?_
  refine ends_bind (R := fun _ => True) ?_ fun _ _ => ends_pure trivial
  intro st w hw
  rw [wp_answered]
  refine ⟨trivial, hw.call hfin ?_⟩
  simp [spoils, hx]

theorem safe_cmdExpect {x : Str} (hx : x ≠ featCmd) (want : Int) (msg : String) :
    Safe h left c m IsBlobError (cmdExpect Sync.FTPBlob.dialect fuel conn x want msg) := by
  refine ends_bind (safe_cmd hfin hos hconn hm hx) ?_
  intro r _
  dsimp only
  split
  · exact ends_raise trivial
  · exact ends_pure trivial

end Replies

/-! ## Logging in -/

/-- While `_sock` holds `s`, the property is usable and keeps it. -/
theorem usable_held (b : FTPBlob) (fuel depth : Nat) (s : Sock .control) :
    Usable h left (· = some s) fuel (connection Sync.FTPBlob.dialect b fuel (depth + 1)) := by
  intro m _ st w hw
  rw [connection_holds _ _ _ _ s _ st w hw.1]
  exact ⟨rfl, hw⟩

section Login

variable (hfin : Finite h left) (hos : OSErrors h) {fuel : Nat} (hm : m ≤ fuel)

include hfin hos hm

theorem safe_login {conn : FtpProg (Option (Sock .control))} (hconn : Usable h left c fuel conn)
    (b : FTPBlob) : Safe h left c m IsBlobError (login Sync.FTPBlob.dialect fuel conn b) := by
  have hauth : Safe h left c m IsBlobError
      (authenticate Sync.FTPBlob.dialect fuel conn b) := by
    refine ends_bind (safe_cmd hfin hos hconn hm (append_ne_of_head (by decide) _)) ?_
    intro r _
    dsimp only
    split
    · refine ends_bind (safe_cmd hfin hos hconn hm (append_ne_of_head (by decide) _)) ?_
      exact fun _ _ => ends_pure trivial
    · exact ends_pure trivial
  have hroot : Safe h left c m IsBlobError (enterRoot Sync.FTPBlob.dialect fuel conn b) := by
    unfold enterRoot
    split
    · exact ends_pure trivial
    · exact safe_cmdExpect hfin hos hconn hm (append_ne_of_head (by decide) _) _ _
  refine ends_bind (safe_expect hfin hos hconn hm _) fun _ _ => ?_
  refine ends_bind hauth fun code _ => ?_
  split
  · exact ends_raise trivial
  · refine ends_bind hroot fun _ _ => ?_
    exact safe_cmdExpect hfin hos hconn hm (by decide) _ _

omit hm in
theorem ends_attempts (b : FTPBlob) (n : Nat) (lastError : String) :
    Safe h left c m IsBlobError (b.attempts n lastError) := by
  induction n generalizing lastError with
  | zero => exact ends_raise trivial
  | succ n ih =>
      refine ends_bind (R := Raisable) ?_ ?_
      · intro st w hw
        rw [wp_connect]
        exact ⟨hos.connect _ _ _ _, hw.call hfin rfl⟩
      · intro r hr
        cases r with
        | ok s => exact ends_pure trivial
        | error e =>
            cases e with
            | runtime e => exact absurd rfl (hr e)
            | _ => exact ih _

/-- After `if not self._sock`: a socket is held, or `BlobError` was raised. -/
def heldPost (left : W → Nat) (m : Nat) : Outcome PyExc Unit → State → W × Bool → Prop :=
  endsPost False (Within left (fun s => s.isSome = true) m)
    (Raises IsBlobError (Within left (fun _ => True) m)) fun _ => True

omit hm in
/-- A failed login drops the connection and raises its own error. -/
theorem wp_loginFailed_within {s : Sock .control} {e : PyExc} (he : IsBlobError e)
    (hw : Within left (· = some s) m st w) :
    wp (watching h) (loginFailed Sync.FTPBlob.dialect e) (heldPost left m) st w := by
  cases e with
  | blobError msg =>
      unfold loginFailed dropHeld
      dsimp only
      rw [bind_eq, wp_bind, bind_eq, wp_bind, wp_read, bindPost_ok, hw.1]
      apply wp_mono (ends_closeSock hfin hos (ψ := IsBlobError) s st w hw)
      rintro (⟨⟩ | e | _) st' w' ho
      · rw [bindPost_ok, bind_eq, wp_bind, wp_setConn]
        exact ⟨trivial, trivial, ho.2.2⟩
      · exact ⟨ho.1, ho.2.weaken fun _ _ => trivial⟩
      · exact ho
  | _ => exact he.elim

theorem wp_connectAndLogin_within (b : FTPBlob) (depth : Nat)
    (hw : Within left (fun _ => True) m st w) :
    wp (watching h)
      (connectAndLogin Sync.FTPBlob.dialect fuel
        (connection Sync.FTPBlob.dialect b fuel (depth + 1)) b st.conn) (heldPost left m) st w := by
  unfold connectAndLogin
  split
  · next s hst => exact ⟨trivial, congrArg Option.isSome hst, hw.2⟩
  · rw [bind_eq, wp_bind]
    apply wp_mono (ends_attempts hfin hos b _ _ st w hw)
    rintro (s | e | _) st' w' ho
    · rw [bindPost_ok, bind_eq, wp_bind, wp_setConn, bindPost_ok, wp_tryCatch]
      have hheld : Within left (· = some s) m { st' with conn := some s } w' := ⟨rfl, ho.2.2⟩
      apply wp_mono (safe_login hfin hos hm (usable_held b fuel depth s) b _ _ hheld)
      rintro (⟨⟩ | e | _) st'' w'' ho
      · exact ⟨trivial, congrArg Option.isSome ho.2.1, ho.2.2⟩
      · exact wp_loginFailed_within hfin hos ho.1 ho.2
      · exact ho
    · exact ho
    · exact ho

omit hm in
/-- The property opens a connection when none is held. -/
theorem usable_connection (b : FTPBlob) (depth : Nat) :
    Usable h left (fun _ => True) fuel
      (connection Sync.FTPBlob.dialect b fuel (depth + 2)) := by
  intro m hm st w hw
  unfold connection
  rw [bind_eq, wp_bind, wp_read, bindPost_ok, bind_eq, wp_bind]
  apply wp_mono (wp_connectAndLogin_within hfin hos hm b depth hw)
  rintro (⟨⟩ | e | _) st' w' ho
  · exact ⟨ho.2.1, trivial, ho.2.2⟩
  · exact ho
  · exact ho

end Login

/-! ## Transfers -/

theorem safe_suppressBlobError {ψ : PyExc → Prop} {p : FtpProg Unit}
    (hp : Safe h left c m IsBlobError p) : Safe h left c m ψ (suppressBlobError p) := by
  apply ends_tryCatch hp
  intro e he
  cases e with
  | blobError msg => exact ends_pure trivial
  | _ => exact he.elim

theorem safe_announced {α : Type} {p : FtpProg α} (hp : Safe h left c m IsBlobError p) :
    Safe h left c m Announced p := hp.weaken fun _ => announced_of_isBlobError

section Transfers

variable (hfin : Finite h left) (hos : OSErrors h) {fuel : Nat}
  {conn : FtpProg (Option (Sock .control))} (hconn : Usable h left c fuel conn) (hm : m ≤ fuel)

include hfin hos hconn hm

/-- The `except` clauses raise. -/
theorem ends_dataFailed {α : Type} {e : PyExc} (he : IsOSError e) :
    Ends False (watching h) (Within left c m) (Raises IsBlobError (Within left c m)) (fun _ => False)
      (dataFailed Sync.FTPBlob.dialect fuel conn e : FtpProg α) := by
  have hexpect : Safe h left c m IsBlobError
      (suppressBlobError (expect Sync.FTPBlob.dialect fuel conn transferDone)) :=
    safe_suppressBlobError (safe_expect hfin hos hconn hm _)
  cases e with
  | ioError e =>
      cases e with
      | runtime e => exact he.elim
      | _ => exact ends_bind hexpect fun _ _ => ends_raise trivial
  | _ => exact he.elim

theorem safe_getPassive :
    Safe h left c m IsBlobError (getPassive Sync.FTPBlob.dialect fuel conn) := by
  refine ends_bind (safe_cmd hfin hos hconn hm (by decide)) fun r _ => ?_
  dsimp only
  split
  · exact ends_raise trivial
  · refine ends_bind (R := fun _ => True)
      (ends_ofExcept (fun _ _ => trivial) fun _ => parsePasv_error) fun addr _ => ?_
    refine ends_bind (R := Raisable) ?_ fun r hr => ?_
    · intro st w hw
      rw [wp_connect]
      exact ⟨hos.connect _ _ _ _, hw.call hfin rfl⟩
    · cases r with
      | ok s => exact ends_pure trivial
      | error e =>
          cases e with
          | runtime e => exact absurd rfl (hr e)
          | _ => exact ends_raise trivial

/-- Every chunk takes octets from the bound. -/
theorem safe_recvAll (sock : Sock .data) {n : Nat} (hn : m ≤ n) (chunks : List Bytes) :
    Safe h left c m IsBlobError
      (recvAll Sync.FTPBlob.dialect fuel conn sock n chunks) := by
  induction n generalizing m chunks with
  | zero => exact fun st w hw => absurd (Nat.lt_of_lt_of_le hw.2.2 hn) (Nat.not_lt_zero _)
  | succ n ih =>
      intro st w hw
      unfold recvAll
      rw [bind_eq, wp_bind, wp_tryCatch]
      apply wp_mono (wp_recv_within hfin hos .data sock hw)
      rintro (data | e | _) st' w' ho
      · obtain ⟨⟨hc, hflag, hlen⟩, -⟩ := ho
        rw [List.length_append] at hlen
        rw [catchPost_ok, bindPost_ok]
        split
        · exact ⟨trivial, hc, hflag, by show st'.responseBuffer.length + left w'.1 < m; omega⟩
        · next hdata =>
            obtain ⟨k, rfl⟩ : ∃ k, m = k + 1 := Nat.exists_eq_succ_of_ne_zero (by omega)
            have hpos : 0 < data.length := by
              cases data with
              | nil => exact absurd rfl hdata
              | cons x xs => exact Nat.succ_pos _
            have hw' : Within left c k st' w' := ⟨hc, hflag, by omega⟩
            apply wp_mono (ih (Nat.le_of_succ_le hm) (Nat.le_of_succ_le_succ hn) _ st' w' hw')
            exact fun _ _ _ => endsPost_succ
      · rw [catchPost_error]
        apply wp_mono (ends_dataFailed hfin hos hconn hm ho.1 st' w' ho.2)
        rintro (data | e | _) st'' w'' ho
        · exact ho.1.elim
        · exact ho
        · exact ho
      · exact ho

/-- Only `_pasv_cmd` raises `KeyError`. -/
theorem safe_retrieve (sock : Sock .data) {x : Str} (hx : x ≠ featCmd) :
    Safe h left c m Announced (retrieve Sync.FTPBlob.dialect fuel conn sock x) := by
  refine ends_bind (safe_announced (safe_cmd hfin hos hconn hm hx)) fun r _ => ?_
  dsimp only
  split
  · exact ends_raise trivial
  · split
    · exact ends_raise trivial
    · refine ends_bind (safe_announced (safe_recvAll hfin hos hconn hm sock hm []))
        fun chunks _ => ?_
      refine ends_bind (safe_announced (safe_expect hfin hos hconn hm _)) fun _ _ => ?_
      exact ends_pure trivial

theorem safe_pasvCmd {x : Str} (hx : x ≠ featCmd) :
    Safe h left c m Announced (pasvCmd Sync.FTPBlob.dialect fuel conn x) := by
  refine ends_bind (safe_announced (safe_getPassive hfin hos hconn hm))
    fun sock _ => ?_
  refine ends_bind (R := fun _ => True) ?_ fun chunks _ => ends_pure trivial
  exact ends_tryFinally (safe_retrieve hfin hos hconn hm sock hx)
    fun _ => ends_closeData hfin hos sock

theorem safe_ensureParentDirs (key : Str) :
    Safe h left c m IsBlobError (ensureParentDirs Sync.FTPBlob.dialect fuel conn key) := by
  apply ends_forEach
  intro dir _
  refine ends_bind (safe_cmd hfin hos hconn hm (append_ne_of_head (by decide) _)) fun r _ => ?_
  dsimp only
  split
  · exact ends_raise trivial
  · exact ends_pure trivial

theorem safe_put (key : Str) (data : Bytes) :
    Safe h left c m IsBlobError (put Sync.FTPBlob.dialect fuel conn key data) := by
  have hstore : ∀ sock : Sock .data,
      Safe h left c m IsBlobError (store Sync.FTPBlob.dialect fuel conn sock key data) := by
    intro sock
    refine ends_bind (safe_cmd hfin hos hconn hm (append_ne_of_head (by decide) _)) fun r _ => ?_
    dsimp only
    split
    · exact ends_raise trivial
    · apply ends_tryCatch (ends_send hfin hos sock data)
      exact fun e he => (ends_dataFailed hfin hos hconn hm he).forget
  refine ends_bind (safe_ensureParentDirs hfin hos hconn hm key) fun _ _ => ?_
  refine ends_bind (safe_getPassive hfin hos hconn hm) fun sock _ => ?_
  refine ends_bind (ends_tryFinally (hstore sock) fun _ => ends_closeData hfin hos sock)
    fun _ _ => ?_
  exact safe_expect hfin hos hconn hm _

theorem safe_delete (key : Str) :
    Safe h left c m Announced (delete Sync.FTPBlob.dialect fuel conn key) := by
  refine ends_bind (safe_announced (safe_cmd hfin hos hconn hm (append_ne_of_head (by decide) _)))
    fun r _ => ?_
  dsimp only
  split
  · exact ends_raise trivial
  · split
    · exact ends_raise trivial
    · exact ends_pure trivial

end Transfers

/-! ## Features and listings -/

/-- An announced exception; or `IndexError`, after a reply to `FEAT` that spoils it. -/
def Escapes (left : W → Nat) (c : Option (Sock .control) → Prop) (m : Nat) (e : PyExc) (st : State)
    (w : W × Bool) : Prop :=
  Raises Announced (Within left c m) e st w ∨ e = .indexError ∧ w.2 = true

/-- `p` ends and keeps the bounds, or lets an exception escape. -/
abbrev Guarded (h : Handler ftp W) (left : W → Nat) (c : Option (Sock .control) → Prop) (m : Nat)
    {α : Type} (p : FtpProg α) : Prop :=
  Ends False (watching h) (Within left c m) (Escapes left c m) (fun _ => True) p

theorem guarded_of_safe {φ : PyExc → Prop} {α : Type} {p : FtpProg α}
    (hp : Safe h left c m φ p) (hφ : ∀ e, φ e → Announced e) : Guarded h left c m p :=
  hp.mono (fun _ _ _ he => .inl ⟨hφ _ he.1, he.2⟩) fun _ _ => trivial

theorem guarded_raise {α : Type} {e : PyExc} (he : Announced e) :
    Guarded h left c m (.raise e : FtpProg α) := fun _ _ hw => .inl ⟨he, hw⟩

section Listings

variable (hfin : Finite h left) (hos : OSErrors h) {fuel : Nat}
  {conn : FtpProg (Option (Sock .control))} (hconn : Usable h left c fuel conn) (hm : m ≤ fuel)

include hfin hos hconn hm

/-- The flag is raised exactly when `from_feat` raises. -/
theorem guarded_features : Guarded h left c m (features Sync.FTPBlob.dialect fuel conn) := by
  intro st w hw
  unfold features
  rw [bind_eq, wp_bind, wp_read, bindPost_ok]
  split
  · exact ⟨trivial, hw⟩
  · unfold cmd
    simp only [bind_eq, bind_assoc', pure_eq, pure_bind']
    refine ends_bind (guarded_of_safe (safe_sendCmd hfin hos hconn hm _)
      fun _ => announced_of_isBlobError) (fun _ _ => ?_) st w hw
    refine ends_bind (guarded_of_safe (safe_readResponse hfin hos hconn hm)
      fun _ => announced_of_isBlobError) fun r _ => ?_
    intro st w hw
    rw [wp_bind, wp_answered, bindPost_ok, wp_bind, wp_ofExcept]
    cases hf : (if r.1 = status then fromFeat r.2 else .ok {}) with
    | error e =>
        split at hf
        · next hcode =>
            obtain ⟨hblank, rfl⟩ := fromFeat_error_iff.mp hf
            exact .inr ⟨rfl, by simp [watching, spoils, hcode, hblank]⟩
        · cases hf
    | ok f =>
        have hkept : spoils (.answered featCmd r.1 r.2) = false := by
          rw [Bool.eq_false_iff]
          intro hspoils
          simp only [spoils, Bool.and_eq_true, decide_eq_true_eq] at hspoils
          obtain ⟨⟨-, hcode⟩, hblank⟩ := hspoils
          rw [if_pos hcode, fromFeat_error_iff.mpr ⟨hblank, rfl⟩] at hf
          cases hf
        exact ⟨trivial, hw.call hfin hkept⟩

theorem guarded_sizeAnswer (f : FTPFeatures) (key : Str) :
    Guarded h left c m (sizeAnswer Sync.FTPBlob.dialect fuel conn f key) := by
  unfold sizeAnswer
  split
  · refine ends_bind (guarded_of_safe (safe_cmd hfin hos hconn hm (append_ne_of_head (by decide) _))
      fun _ => announced_of_isBlobError) fun r _ => ?_
    dsimp only
    split
    · exact ends_pure trivial
    · split <;> exact ends_pure trivial
  · exact ends_pure trivial

theorem guarded_mlstAnswer (f : FTPFeatures) (key : Str) :
    Guarded h left c m (mlstAnswer Sync.FTPBlob.dialect fuel conn f key) := by
  unfold mlstAnswer
  split
  · refine ends_bind (guarded_of_safe (safe_cmd hfin hos hconn hm (append_ne_of_head (by decide) _))
      fun _ => announced_of_isBlobError) fun r _ => ?_
    dsimp only
    split
    · exact ends_pure trivial
    · split <;> exact ends_pure trivial
  · exact ends_pure trivial

/-- A directory that is not there is no error. -/
theorem guarded_listData {verb : Str} (hverb : ∀ path, listCmd verb path ≠ featCmd) (path : Str) :
    Guarded h left c m (listData Sync.FTPBlob.dialect fuel conn verb path) := by
  have hdata : Safe h left c m Announced
      ((pasvCmd Sync.FTPBlob.dialect fuel conn (listCmd verb path)).bind
        fun data => .pure (some data)) :=
    ends_bind (safe_pasvCmd hfin hos hconn hm (hverb path)) fun _ _ => ends_pure trivial
  refine guarded_of_safe (φ := Announced) (ends_tryCatch hdata fun e he => ?_) fun _ he => he
  split
  · exact ends_pure trivial
  · exact ends_raise he

/-- `list_dir` at every depth. -/
theorem guarded_listDir {verb : Str} (hverb : ∀ path, listCmd verb path ≠ featCmd)
    {parser : Bytes → Except PyExc (Str × Bool)} (hparser : RaisesBlobError parser)
    (rest : List Str) (path : Str) :
    Generates (Guarded h left c m)
      (listDir Sync.FTPBlob.dialect fuel conn verb parser rest path) := by
  have hP := ends_sequential False (watching h) (Within left c m) (Escapes left c m)
  have hline : ∀ (line : Bytes) (f : Str × Bool → FtpGen Unit),
      (∀ entry, Generates (Guarded h left c m) (f entry)) →
      Generates (Guarded h left c m) ((Program.ofExcept (parser line)).bind f) := by
    intro line f hf
    cases hp : parser line with
    | ok entry => exact hf entry
    | error e =>
        have he : Announced e := announced_of_isBlobError (hparser line e hp)
        exact ⟨guarded_raise he, fun _ => guarded_raise he⟩
  induction rest generalizing path with
  | nil =>
      unfold listDir
      apply hP.generates_embed_bind (guarded_listData hfin hos hconn hm hverb _)
      intro data
      cases data with
      | none => exact hP.generates_pure
      | some data =>
          apply hP.generates_forEach
          intro line _
          apply hline
          intro entry
          dsimp only
          split
          · exact hP.generates_pure
          · exact hP.generates_yield _
  | cons part rest ih =>
      unfold listDir
      apply hP.generates_embed_bind (guarded_listData hfin hos hconn hm hverb _)
      intro data
      cases data with
      | none => exact hP.generates_pure
      | some data =>
          apply hP.generates_forEach
          intro line _
          apply hline
          intro entry
          dsimp only
          split
          · split
            · exact ih _
            · exact hP.generates_yield _
          · exact hP.generates_pure

theorem guarded_scan (pre : Str) :
    Generates (Guarded h left c m) (scan Sync.FTPBlob.dialect fuel conn pre) := by
  have hP := ends_sequential False (watching h) (Within left c m) (Escapes left c m)
  apply hP.generates_embed_bind (guarded_features hfin hos hconn hm)
  intro f
  split
  · exact guarded_listDir hfin hos hconn hm (listCmd_ne_of_head (by decide))
      parseMlsdLine_raises _ _
  · exact guarded_listDir hfin hos hconn hm (listCmd_ne_of_head (by decide))
      parseListLine_raises _ _

theorem guarded_exists (key : Str) :
    Guarded h left c m (exists' Sync.FTPBlob.dialect fuel conn key) := by
  refine ends_bind (guarded_features hfin hos hconn hm) fun f _ => ?_
  refine ends_bind (guarded_sizeAnswer hfin hos hconn hm f key) fun answer _ => ?_
  cases answer with
  | some found => exact ends_pure trivial
  | none =>
      refine ends_bind (guarded_mlstAnswer hfin hos hconn hm f key) fun answer _ => ?_
      cases answer with
      | some found => exact ends_pure trivial
      | none => exact (guarded_scan hfin hos hconn hm key).2 _

/-- Every operation. -/
theorem guarded_perform {close : FtpProg Unit} {x : Call} (hx : x ≠ .close) :
    Guarded h left c m ((backend Sync.FTPBlob.dialect fuel conn close).perform x) := by
  have hannounced : ∀ e, IsBlobError e → Announced e := fun _ => announced_of_isBlobError
  cases x with
  | open' =>
      have hopen : Safe h left c m IsBlobError conn := (hconn m hm).forget
      refine ends_bind (R := fun _ => True) ?_ fun _ _ => ends_pure trivial
      exact guarded_of_safe (ends_bind hopen fun _ _ => ends_pure trivial) hannounced
  | close => exact absurd rfl hx
  | put key data =>
      exact guarded_of_safe
        (ends_bind (safe_put hfin hos hconn hm key data) fun _ _ => ends_pure trivial) hannounced
  | get key =>
      exact guarded_of_safe
        (ends_bind (safe_pasvCmd hfin hos hconn hm (append_ne_of_head (by decide) _))
          fun _ _ => ends_pure trivial) fun _ he => he
  | delete key =>
      exact guarded_of_safe
        (ends_bind (safe_delete hfin hos hconn hm key) fun _ _ => ends_pure trivial) fun _ he => he
  | exists' key =>
      exact ends_bind (guarded_exists hfin hos hconn hm key) fun _ _ => ends_pure trivial
  | scan pre =>
      exact ends_bind (guarded_scan hfin hos hconn hm pre).1 fun _ _ => ends_pure trivial

end Listings

/-! ## The operations -/

/-- An operation returns or raises an announced exception exactly when it has not read a reply to
`FEAT` with the code 211 and a line of white space. -/
theorem expected_iff (hfin : Finite h left) (hos : OSErrors h) (b : FTPBlob) (st : State) (w : W)
    {fuel : Nat} (hfuel : st.responseBuffer.length + left w + 2 ≤ fuel) {x : Call}
    (hx : x ≠ .close) :
    Expected (((Flavour.sync.backend b fuel).perform x).run (watching h) st (w, false)).1 ↔
      (((Flavour.sync.backend b fuel).perform x).run (watching h) st (w, false)).2.2.2 = false := by
  obtain ⟨depth, rfl⟩ : ∃ depth, fuel = depth + 2 := ⟨fuel - 2, by omega⟩
  have hconn : Usable h left (fun _ => True) (depth + 2)
      (connection Sync.FTPBlob.dialect b (depth + 2) (depth + 2)) :=
    usable_connection hfin hos b depth
  have hstart : Within left (fun _ => True) (depth + 2) st (w, false) :=
    ⟨trivial, rfl, by show st.responseBuffer.length + left w < depth + 2; omega⟩
  have hend : wp (watching h) ((Flavour.sync.backend b (depth + 2)).perform x)
      (endsPost False (Within left (fun _ => True) (depth + 2))
        (Escapes left (fun _ => True) (depth + 2)) fun _ => True) st (w, false) :=
    guarded_perform hfin hos hconn Nat.le.refl hx st _ hstart
  unfold wp at hend
  generalize ((Flavour.sync.backend b (depth + 2)).perform x).run (watching h) st (w, false) = r
    at hend ⊢
  obtain ⟨o, st', w'⟩ := r
  cases o with
  | ok a => exact iff_of_true trivial hend.2.2.1
  | error e =>
      rcases hend with ⟨he, hw'⟩ | ⟨rfl, hflag⟩
      · exact iff_of_true he hw'.2.1
      · exact iff_of_false False.elim (Bool.eq_false_iff.not.mpr fun hne => hne hflag)
  | spun => exact hend.elim

/-! ## A scripted server -/

/-- The octets that a script has still to send. -/
def scriptLeft (l : List Bytes) : Nat := l.flatten.length

theorem finite_scripted : Finite scripted scriptLeft where
  recv := by
    intro ch s l data hdata
    cases ch with
    | data =>
        obtain rfl := Except.ok.inj hdata
        exact Nat.le_of_eq (Nat.zero_add _)
    | control =>
        cases l with
        | nil =>
            obtain rfl := Except.ok.inj hdata
            exact Nat.le_of_eq (Nat.zero_add _)
        | cons x l =>
            obtain rfl := Except.ok.inj hdata
            show x.length + l.flatten.length ≤ (x :: l).flatten.length
            rw [List.flatten_cons, List.length_append]
  other := by
    intro l o
    cases o with
    | @recv ch s =>
        cases ch with
        | data => exact Nat.le.refl
        | control =>
            cases l with
            | nil => exact Nat.le.refl
            | cons x l =>
                show l.flatten.length ≤ (x :: l).flatten.length
                rw [List.flatten_cons, List.length_append]
                exact Nat.le_add_left _ _
    | _ => exact Nat.le.refl

theorem osErrors_scripted : OSErrors scripted where
  connect := nofun
  sendall := nofun
  recv := by
    intro l ch s
    cases ch with
    | data => exact nofun
    | control => cases l <;> exact nofun
  shutdown := nofun
  close := nofun

/-- A reply to `FEAT` with a line of white space. -/
def blankFeat : Bytes := [line "211-.", line " ", line "211 ."].flatMap frame

/-- An object that has logged in. -/
def loggedIn : State := { anonymous.start with conn := some ⟨0⟩ }

theorem expected_iff_delete :
    Expected (((Flavour.sync.backend anonymous 9).perform (.delete ['a'])).run (watching scripted)
      loggedIn ([line "250 ." ++ crlf], false)).1 :=
  (expected_iff finite_scripted osErrors_scripted anonymous loggedIn _ (by decide)
    (by decide)).mpr (by decide)

/-- `exists` raises `IndexError`. -/
theorem not_expected_blank :
    Finite scripted scriptLeft ∧ OSErrors scripted ∧
      ¬ Expected (((Flavour.sync.backend anonymous 19).perform (.exists' ['a'])).run
        scripted loggedIn [blankFeat]).1 := by
  refine ⟨finite_scripted, osErrors_scripted, ?_⟩
  have hrun : (((Flavour.sync.backend anonymous 19).perform (.exists' ['a'])).run
      scripted loggedIn [blankFeat]).1 = .error .indexError := by
    decide
  rw [hrun]
  exact False.elim

end GufoBlob.FTPBlob
