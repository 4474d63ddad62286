import GufoBlob.Ftp.Pairing
import GufoBlob.Interaction.Exact

/-!
# Exchanges with a punctual server

With a punctual server nothing fails, so what a command does is known exactly. `At f p pending rest`
is the state in which a connection is held, the client knows the features `f`, the server is in the
state `p`, and `rest` is still to be read.

* `wp_cmd_at` — a command returns its reply.
* `wp_expect_at` — `_expect` returns when the reply has the right code.

Both need more fuel than the reply has octets.
-/

namespace GufoBlob.Ftp

open Text Interaction Program FTPBlob

variable {S N : Type} {P : Peer S} {net : N → Option Nat × N}

/-! ## What stays as it is -/

/-- The connection `s` is held, and the features are `f`. -/
def Held (s : Sock .control) (f : Option FTPFeatures) (st : State) : Prop :=
  st.conn = some s ∧ st.features = f

section Held

variable {E : Type} {h : Handler ftp E} {s : Sock .control} {f : Option FTPFeatures}
  {conn : FtpProg (Option (Sock .control))}

abbrev KeepsHeld (h : Handler ftp E) (s : Sock .control) (f : Option FTPFeatures) {α : Type}
    (p : FtpProg α) : Prop := Preserves h (fun st _ => Held s f st) p

theorem keepsHeld_sockets : Sockets (KeepsHeld h s f) where
  toCompositional := preserves_compositional _ _
  call _ _ _ hk := preserves_call (fun _ _ hJ => hJ) hk

theorem keepsHeld_commands (fl : Flavour) (hconn : Holds h conn s) :
    Commands (KeepsHeld h s f) fl.dialect conn fun _ => True where
  toCompositional := preserves_compositional _ _
  connection st _ hJ := (hconn _ st _ hJ.1).mpr hJ
  read := preserves_read
  setBuffer _ := preserves_modify fun _ _ hJ => hJ
  appendBuffer _ := preserves_modify fun _ _ hJ => hJ
  recv s := recv_of keepsHeld_sockets fl s
  transmit s c _ := by
    apply preserves_bind (preserves_call (fun _ _ hJ => hJ) preserves_pure)
    intro _
    cases fl with
    | sync => exact preserves_call (fun _ _ hJ => hJ) (raiseOnError_of keepsHeld_sockets)
    | aio =>
        apply preserves_call (fun _ _ hJ => hJ)
        exact fun _ => preserves_call (fun _ _ hJ => hJ) (raiseOnError_of keepsHeld_sockets)
  answered _ _ _ := preserves_call (fun _ _ hJ => hJ) preserves_pure

end Held

/-! ## Exact rules -/

/-- A connection is held, the client knows the features `f`, the server is in the state `p`, and
`rest` is still to be read. -/
structure At (f : Option FTPFeatures) (p : S) (pending : Bool) (rest : Bytes) (st : State)
    (t : Session S N) : Prop where
  reading : ∃ s, Reading s t.toBook rest st t
  features : st.features = f
  peer : t.peer = p
  pending : t.pending = pending

section Exact

variable {fl : Flavour} {fuel : Nat} {conn : FtpProg (Option (Sock .control))}
  {f : Option FTPFeatures} {p : S} {pending : Bool} {rest : Bytes} {st : State} {t : Session S N}
  (hpunctual : Punctual P net) (hconn : ∀ s, Holds (session P net) conn s)

include hpunctual hconn

/-- A command is answered, and what the server sent after the reply is still to be read. -/
theorem wp_cmd_at {c : Str} (hc : ¬ BreaksLine c) {r : Reply} {p' : S}
    (hreceive : P.receive p (encode c) = ⟨r, rest, pending, p'⟩) (hfuel : r.bytes.length < fuel)
    (ht : At f p false [] st t) :
    wp (session P net) (cmd fl.dialect fuel conn c)
      (exactly (.ok (r.code, r.lines)) (At f p' pending rest)) st t := by
  obtain ⟨⟨s, hreading⟩, hfeatures, rfl, hpending⟩ := ht
  have hheld : Held s f st := ⟨hreading.held, hfeatures⟩
  apply wp_mono (wp_and (wp_cmd_session (hconn s) fl hc hpending hreading)
    (cmd_of (keepsHeld_commands fl (hconn s)) trivial st t hheld))
  unfold cmdPost
  rintro (a | e | _) st' t' ⟨hfailed | ho, hheld'⟩
  · exact absurd hpunctual hfailed.2
  · rw [hreceive] at ho
    obtain ⟨rfl, ht'⟩ := ho
    refine ⟨rfl, ⟨s, ht'.book ▸ ht'⟩, hheld'.2, ?_, ?_⟩
    · refine (congrArg Book.peer ht'.book :).trans ?_
      show (P.receive t.peer (encode c)).peer = p'
      rw [hreceive]
    · refine (congrArg Book.pending ht'.book :).trans ?_
      show (t.pending || (P.receive t.peer (encode c)).pending) = pending
      rw [hpending, Bool.false_or, hreceive]
  · exact absurd hpunctual hfailed.2
  · exact absurd hpunctual ho.notPunctual
  · exact absurd hpunctual hfailed.2
  · rw [hreceive] at ho
    exact absurd ho.1 (Nat.not_le.mpr hfuel)

/-- The reply that is expected is read. -/
theorem wp_expect_at (r : Reply) (hfuel : r.bytes.length < fuel)
    (ht : At f p pending (r.bytes ++ rest) st t) :
    wp (session P net) (expect fl.dialect fuel conn r.code)
      (exactly (.ok ()) (At f p pending rest)) st t := by
  obtain ⟨⟨s, hreading⟩, hfeatures, rfl, hpending⟩ := ht
  have hheld : Held s f st := ⟨hreading.held, hfeatures⟩
  apply wp_mono (wp_and (wp_expect_session (hconn s) fl r r.code hreading)
    (expect_of (keepsHeld_commands fl (hconn s)).toReads r.code st t hheld))
  rintro (a | e | _) st' t' ⟨hfailed | ho, hheld'⟩
  · exact absurd hpunctual hfailed.2
  · obtain ⟨-, ht'⟩ := ho
    refine ⟨rfl, ⟨s, ht'.book ▸ ht'⟩, hheld'.2, ?_, ?_⟩
    · exact (congrArg Book.peer ht'.book :)
    · exact (congrArg Book.pending ht'.book :).trans hpending
  · exact absurd hpunctual hfailed.2
  · rcases ho with he | ⟨hne, -⟩
    · exact absurd hpunctual he.notPunctual
    · exact absurd rfl hne
  · exact absurd hpunctual hfailed.2
  · exact absurd ho.1 (Nat.not_le.mpr hfuel)

end Exact

/-! ## Data connections -/

section Data

variable {f : Option FTPFeatures} {p : S} {pending : Bool} {rest : Bytes} {st : State}
  {t : Session S N} {o : FtpOp}

/-- A call on a data connection that is not the end of a transfer. -/
theorem At.transferred (ht : At f p pending rest st t)
    (hends : pending = false ∨ endsData o (P.other p o).1 = false) :
    At f (P.other p o).2 pending rest st (t.transferred P o) := by
  obtain ⟨⟨s, hreading⟩, hfeatures, rfl, rfl⟩ := ht
  have hquiet : ∀ t' : Session S N, t'.pending = false → t'.finished P = t' := by
    intro t' ht'
    unfold Session.finished
    simp [ht']
  have heq : t.transferred P o = { t with peer := (P.other t.peer o).2 } := by
    unfold Session.transferred
    dsimp only
    split
    · next hend =>
        have hpending := hends.resolve_right (by simp [hend])
        exact hquiet _ hpending
    · rfl
  rw [heq]
  refine ⟨⟨s, ?_⟩, hfeatures, rfl, rfl⟩
  exact ⟨hreading.held, rfl, hreading.unread, hreading.lines, hreading.sound.matched,
    hreading.sound.clear⟩

/-- The end of a transfer, whose final reply is then to be read. -/
theorem At.transferred_ends (ht : At f p true rest st t)
    (hends : endsData o (P.other p o).1 = true) :
    At f (P.finish (P.other p o).2).2 false (rest ++ (P.finish (P.other p o).2).1.bytes) st
      (t.transferred P o) := by
  obtain ⟨⟨s, hreading⟩, hfeatures, rfl, hpending⟩ := ht
  have heq : t.transferred P o =
      { t with
        peer := (P.finish (P.other t.peer o).2).2, pending := false
        wire := t.wire ++ (P.finish (P.other t.peer o).2).1.bytes } := by
    unfold Session.transferred Session.finished
    simp [hends, hpending]
  rw [heq]
  refine ⟨⟨s, ?_⟩, hfeatures, rfl, rfl⟩
  refine ⟨hreading.held, rfl, ?_, hreading.lines, hreading.sound.matched, hreading.sound.clear⟩
  rw [← hreading.unread, List.append_assoc]

end Data

end GufoBlob.Ftp
