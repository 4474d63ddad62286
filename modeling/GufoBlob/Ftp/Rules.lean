import GufoBlob.Ftp.Structure

/-!
# Rules for the steps of the protocol

Weakest preconditions of the small functions of an `FTPBlob`, and of `connection` while a
connection is held: it returns that connection and does nothing else.
-/

namespace GufoBlob.FTPBlob

open Text Interaction Program Ftp

variable {E : Type} {h : Handler ftp E} {st : State} {w : E}

section State

variable {Q : Outcome PyExc Unit → State → E → Prop}

@[simp] theorem wp_setConn (c : Option (Sock .control)) :
    wp h (setConn c) Q st w ↔ Q (.ok ()) { st with conn := c } w := Iff.rfl

@[simp] theorem wp_setBuffer (b : Bytes) :
    wp h (setBuffer b) Q st w ↔ Q (.ok ()) { st with responseBuffer := b } w := Iff.rfl

@[simp] theorem wp_appendBuffer (b : Bytes) :
    wp h (appendBuffer b) Q st w ↔
      Q (.ok ()) { st with responseBuffer := st.responseBuffer ++ b } w := Iff.rfl

@[simp] theorem wp_setFeatures (f : FTPFeatures) :
    wp h (setFeatures f) Q st w ↔ Q (.ok ()) { st with features := some f } w := Iff.rfl

@[simp] theorem wp_asked (s : Sock .control) (c : Str) :
    wp h (asked s c) Q st w ↔ Q (.ok ()) st (h w (.asked s c)).2 := Iff.rfl

@[simp] theorem wp_answered (c : Str) (code : Int) (lines : List Bytes) :
    wp h (answered c code lines) Q st w ↔ Q (.ok ()) st (h w (.answered c code lines)).2 := Iff.rfl

@[simp] theorem wp_connect (ch : Chan) (host : Str) (port : Nat)
    (Q : Outcome PyExc (Except IOErr (Sock ch)) → State → E → Prop) :
    wp h (connect ch host port) Q st w ↔
      Q (.ok (h w (.connect ch host port)).1) st (h w (.connect ch host port)).2 := Iff.rfl

end State

/-- What `raiseOnError` makes of an answer. -/
def raised {α : Type} : Except IOErr α → Outcome PyExc α
  | .ok a => .ok a
  | .error e => .error (.ioError e)

@[simp] theorem wp_raiseOnError {α : Type} (r : Except IOErr α)
    (Q : Outcome PyExc α → State → E → Prop) : wp h (raiseOnError r) Q st w ↔ Q (raised r) st w := by
  cases r <;> rfl

@[simp] theorem wp_ofExcept {α : Type} (r : Except PyExc α)
    (Q : Outcome PyExc α → State → E → Prop) :
    wp h (Program.ofExcept r : FtpProg α) Q st w ↔
      Q (match r with | .ok a => .ok a | .error e => .error e) st w := by
  cases r <;> rfl

/-- The property `connection` returns `s` at once. -/
def Holds (h : Handler ftp E) (conn : FtpProg (Option (Sock .control))) (s : Sock .control) : Prop :=
  ∀ Q st w, st.conn = some s → (wp h conn Q st w ↔ Q (.ok (some s)) st w)

theorem connection_holds (d : Dialect) (b : FTPBlob) (fuel depth : Nat) (s : Sock .control) :
    Holds h (connection d b fuel (depth + 1)) s := by
  intro Q st w hst
  unfold connection
  simp [hst, connectAndLogin]

/-! ## Commands that are sent -/

theorem sendFailed_raises (d : Dialect) (e : PyExc) : ∃ e', sendFailed d e = .raise e' := by
  unfold sendFailed
  split
  · split <;> exact ⟨_, rfl⟩
  · exact ⟨_, rfl⟩

/-- What is so as soon as a command has been announced, and for good, is so when it was sent. -/
theorem wp_sendCmd_of_asked {d : Dialect} {conn : FtpProg (Option (Sock .control))} {J : E → Prop}
    {c : Str} (hJ : ∀ w o, J w → J (h w o).2) (hasked : ∀ s w, J (h w (.asked s c)).2) (st : State)
    (w : E) : wp h (sendCmd d conn c) (fun o _ w => ∀ u, o = .ok u → J w) st w := by
  have hfailed : ∀ e st w, wp h (sendFailed d e) (fun o _ w => ∀ u, o = .ok u → J w) st w := by
    intro e st w
    obtain ⟨e', he⟩ := sendFailed_raises d e
    rw [he]
    simp
  unfold sendCmd
  rw [wp_tryCatch, bind_eq, wp_bind]
  apply wp_mono (Q := fun _ _ _ => True) trivial
  rintro (held | e | _) st' w' -
  · cases held with
    | none => exact hfailed _ st' w'
    | some s =>
        rw [bindPost_ok]
        dsimp only
        rw [bind_eq, wp_bind, wp_asked, bindPost_ok]
        apply wp_mono (preserves_of_stable hJ (d.send s (encode c ++ crlf)) st' _ (hasked s w'))
        rintro (u | e | _) st'' w'' hw''
        · exact fun _ _ => hw''
        · exact hfailed e st'' w''
        · simp
  · exact hfailed e st' w'
  · simp

/-- The same, when the reply has been read as well. -/
theorem wp_cmd_of_asked {d : Dialect} {fuel : Nat} {conn : FtpProg (Option (Sock .control))}
    {J : E → Prop} {c : Str} (hJ : ∀ w o, J w → J (h w o).2)
    (hasked : ∀ s w, J (h w (.asked s c)).2) (st : State) (w : E) :
    wp h (cmd d fuel conn c) (fun o _ w => ∀ r, o = .ok r → J w) st w := by
  unfold cmd
  rw [bind_eq, wp_bind]
  apply wp_mono (wp_sendCmd_of_asked hJ hasked st w)
  rintro (u | e | _) st' w' hw'
  · rw [bindPost_ok]
    apply wp_mono (preserves_of_stable hJ _ st' w' (hw' u rfl))
    exact fun _ _ _ hw'' _ _ => hw''
  · simp
  · simp

/-! ## Commands that differ -/

/-- Commands with different first letters are different, whatever follows the verb. -/
theorem append_ne_of_head {verb c : Str} (hverb : verb ≠ [] ∧ verb.head? ≠ c.head?) (rest : Str) :
    verb ++ rest ≠ c := by
  rintro rfl
  exact hverb.2 (List.head?_append_of_ne_nil verb hverb.1).symm

theorem listCmd_ne_of_head {verb c : Str} (hverb : verb ≠ [] ∧ verb.head? ≠ c.head?)
    (path : Str) : listCmd verb path ≠ c := by
  unfold listCmd
  split
  · rw [← List.append_nil verb]
    exact append_ne_of_head hverb []
  · exact append_ne_of_head hverb _

/-! ## Replies and features -/

/-- A line that is already in the buffer. -/
theorem wp_readLine_buffered {d : Dialect} {fuel : Nat}
    {conn : FtpProg (Option (Sock .control))} {buf line rest : Bytes}
    (hline : cutLine buf = some (line, rest)) {c : Option (Sock .control)}
    {f : Option FTPFeatures} (Q : Outcome PyExc Bytes → State → E → Prop) :
    wp h (readLine d (fuel + 1) conn) Q ⟨c, buf, f⟩ w ↔ Q (.ok line) ⟨c, rest, f⟩ w := by
  unfold readLine readLineLoop
  simp [hline]

/-- `features` is read, not asked for, once it is known. -/
theorem wp_features_known {d : Dialect} {fuel : Nat} {conn : FtpProg (Option (Sock .control))}
    {f : FTPFeatures} (hst : st.features = some f) (Q : Outcome PyExc FTPFeatures → State → E → Prop) :
    wp h (features d fuel conn) Q st w ↔ Q (.ok f) st w := by
  unfold features
  simp [hst]

end GufoBlob.FTPBlob
