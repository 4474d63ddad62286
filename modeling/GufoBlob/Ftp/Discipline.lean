import GufoBlob.Ftp.Outstanding
import GufoBlob.Interaction.Suspended

/-!
# The discipline of a session

Runs of the sync class with a server that answers every command with one final reply.

* `disciplined` — when the server answers in time, no reply is outstanding between two operations or
  at a yield of a suspended scan, and every reply that is read is the one to the command just sent.
* `paired` — the same for runs of a server that may be late, as long as no receive times out.
* `not_paired_late` — a receive that has timed out, and the next operation gets the late reply.
-/

namespace GufoBlob.Ftp

open Text Interaction Program FTPBlob

variable {S N : Type} {P : Peer S} {net : N → Option Nat × N} {b : FTPBlob} {fuel : Nat}

/-- An operation whose key contains no CR LF. -/
def Ordinary : Call → Prop
  | .close => False
  | .put key _ => ¬ BreaksLine key
  | .get key => ¬ BreaksLine key
  | .delete key => ¬ BreaksLine key
  | .exists' key => ¬ BreaksLine key
  | _ => True

theorem Ordinary.ne_close {c : Call} (hc : Ordinary c) : c ≠ .close := by
  rintro rfl
  exact hc

theorem Ordinary.meant {c : Call} (hc : Ordinary c) {x : Str} (hx : Meant c x) : ¬ BreaksLine x := by
  apply hx.plain
  rintro key (⟨data, rfl⟩ | rfl | rfl | rfl) <;> exact hc

/-- What an operation runs. -/
def operation (b : FTPBlob) (fuel : Nat) (c : { c // Ordinary c }) : FtpProg Value :=
  (Flavour.sync.backend b fuel).perform c.1

/-- A new object, before its first connection. -/
def Fresh (b : FTPBlob) (st : State) (t : Session S N) : Prop :=
  st = b.start ∧ ∃ p n, t = .start p n

theorem Fresh.quiet {st : State} {t : Session S N} (ht : Fresh b st t) : Quiet st t := by
  obtain ⟨rfl, p, n, rfl⟩ := ht
  exact
    { buffer := rfl
      wire := rfl
      pending := rfl
      lines := ⟨[], by simp, rfl⟩
      loggedIn := fun hne => absurd rfl hne
      sound := ⟨rfl, rfl⟩ }

section Runs

variable (hos : OSErrors P.other) (hb : LoginPlain b)

include hos hb

theorem keepsQuiet_operation (c : { c // Ordinary c }) : KeepsQuiet P net (operation b fuel c) := by
  obtain ⟨c, hc⟩ := c
  apply perform_of (keepsQuiet_methods hos hb)
  · rintro rfl
    exact hc.elim
  · exact fun x hx => hc.meant hx

/-- Between its yields a scan keeps `Quiet`. -/
theorem resumable_scan (pre : Str) :
    Resumable (session P net) (fun st t => Failed P net t ∨ Quiet st t)
      (fun t => Failed P net t ∨ t.toBook.Sound) ((Flavour.sync.backend b fuel).scan pre) := by
  have hmaintains : Generative (KeepsQuiet P net)
      (Resumable (session P net) (fun st t => Failed P net t ∨ Quiet st t)
        (fun t => Failed P net t ∨ t.toBook.Sound) (δ := Str) (ε := PyExc)) := by
    have h := resumable_generative (ε := PyExc) (δ := Str) (session P net)
      (fun st t => Failed P net t ∨ Quiet st t) fun t => Failed P net t ∨ t.toBook.Sound
    exact
      { h with embed_bind := fun hp hf => h.embed_bind (maintains_of_keepsUnless failed_stable hp) hf }
  exact scan_of (keepsQuiet_methods hos hb) hmaintains fun x hx => hx.plain

/-- **The session is disciplined.** The server answers in time; in every run of operations in which
scans may be suspended at a yield and resumed later, no reply is outstanding and the buffer is empty
after every operation and at every yield. Every reply that is read is the one to the command just
sent, also in an operation that never ends. -/
theorem disciplined (hp : Punctual P net) {st : State} {t : Session S N} {gs : List (FtpGen Unit)}
    (hrun : Interleaved (session P net) (operation b fuel) (Flavour.sync.backend b fuel).scan
      (Fresh b) st t gs) :
    Quiet st t ∧
      (∀ c, wp (session P net) (operation b fuel c) (fun _ _ t => t.toBook.Sound) st t) ∧
      ∀ g ∈ gs, wp (session P net) g.next (fun _ _ t => t.toBook.Sound) st t := by
  have hnever : ∀ t : Session S N, ¬ Failed P net t := fun t ht => ht.2 hp
  obtain ⟨hquiet, hgs⟩ := hrun.invariant (fun _ _ ht => .inr ht.quiet)
    (fun c => maintains_of_keepsUnless failed_stable (keepsQuiet_operation hos hb c))
    (resumable_scan hos hb)
  have hquiet := hquiet.resolve_left (hnever t)
  refine ⟨hquiet, fun c => ?_, fun g hg => ?_⟩
  · apply wp_mono (keepsQuiet_operation hos hb c st t hquiet)
    rintro (a | e | _) st' t' ho
    · exact (ho.resolve_left (hnever t')).sound
    · exact (ho.resolve_left (hnever t')).sound
    · exact ho.resolve_left (hnever t')
  · apply wp_mono (wp_next (hgs g hg st t (.inr hquiet)))
    rintro (a | e | _) st' t' ho
    · cases a with
      | none => exact (ho.resolve_left (hnever t')).sound
      | some x => exact (ho.1.resolve_left (hnever t')).sound
    · exact (ho.resolve_left (hnever t')).sound
    · exact ho.resolve_left (hnever t')

/-- **Without a timeout the replies are paired.** In every run in which no receive on the control
connection times out, except in a login and after whole lines, every reply that `_cmd` returned is
the one to its command, and no reply is outstanding. -/
theorem paired {st : State} {t : Session S N}
    (hrun : Reachable (session P net) (operation b fuel) (Fresh b) st t) (hlate : t.late = false) :
    Quiet st t ∧
      ∀ c, wp (session P net) (operation b fuel c) (fun _ _ t => t.late = true ∨ t.toBook.Sound)
        st t := by
  have hquiet : Failed P net t ∨ Quiet st t := by
    apply hrun.invariant
    · exact fun _ _ ht => .inr ht.quiet
    · intro c st t ht
      apply wp_mono
        (maintains_of_keepsUnless failed_stable (keepsQuiet_operation hos hb c) st t ht)
      rintro (a | e | _) st' t' ho hne
      · exact ho
      · exact ho
      · exact absurd rfl hne
  have hquiet := hquiet.resolve_left fun hfailed => absurd (hlate.symm.trans hfailed.1) (by simp)
  refine ⟨hquiet, fun c => ?_⟩
  apply wp_mono (keepsQuiet_operation hos hb c st t hquiet)
  rintro (a | e | _) st' t' ho
  · exact ho.imp And.left fun hq => hq.sound
  · exact ho.imp And.left fun hq => hq.sound
  · exact ho.imp_left And.left

end Runs

/-! ## A small server -/

/-- A reply of one line. -/
def Reply.ofLine {code : Int} {l : Bytes} (h : ReplyLine code l) : Reply where
  code := code
  first := l
  more := []
  noBreak := by simpa using h.noBreak
  length := h.length
  hcode := h.code
  completes := by
    unfold Completes
    rw [if_neg h.single]

theorem replyLine_sizeOk : ReplyLine sizeOk (line "213 1") :=
  replyLine_of_decide (by decide)

theorem replyLine_notFound : ReplyLine notFound (line "550 .") :=
  replyLine_of_decide (by decide)

theorem replyLine_transferReady : ReplyLine transferReady (line "125 .") :=
  replyLine_of_decide (by decide)

theorem replyLine_transferDone : ReplyLine transferDone (line "226 .") :=
  replyLine_of_decide (by decide)

/-- The answers of a server with a file `a`. -/
def smallAnswer (x : Bytes) : Answer :=
  if x.take 4 = encode "USER".toList then .final (.ofLine replyLine_loginOk) rfl
  else if x = encode typeCmd then .final (.ofLine replyLine_ok) rfl
  else if x = encode pasvCmdText then .final (.ofLine replyLine_pasv) rfl
  else if x = encode listVerb then .start (.ofLine replyLine_transferReady) rfl false
  else if x = encode (sizeCmd ['a']) then .final (.ofLine replyLine_sizeOk) rfl
  else .final (.ofLine replyLine_notFound) rfl

/-- The data connections deliver what is in the list. -/
def smallData : Handler ftp (List Bytes)
  | x :: l, @FtpOp.recv .data _ => (.ok x, l)
  | l, o => scripted l o

def smallPeer : Peer (List Bytes) where
  greet p := (.ofLine replyLine_ready, p)
  serve p x := (smallAnswer x, p)
  finish p := (.ofLine replyLine_transferDone, p)
  other := smallData
  starts := by
    intro p x r h early
    unfold smallAnswer
    dsimp only
    split_ifs with hu ht hp hl hs
    · exact nofun
    · exact nofun
    · exact nofun
    · subst hl
      exact fun _ => rfl
    · exact nofun
    · exact nofun

theorem osErrors_small : OSErrors smallPeer.other where
  connect l ch host port := by cases l <;> exact osErrors_scripted.connect _ ch host port
  sendall l ch s x := by cases l <;> exact osErrors_scripted.sendall _ ch s x
  recv l ch s := by
    cases ch with
    | control => cases l <;> exact osErrors_scripted.recv _ .control s
    | data =>
        cases l with
        | nil => exact osErrors_scripted.recv [] .data s
        | cons x l => exact fun _ => nofun
  shutdown l ch s := by cases l <;> exact osErrors_scripted.shutdown _ ch s
  close l ch s := by cases l <;> exact osErrors_scripted.close _ ch s

/-- All that is on the wire arrives at every receive, but for those that time out. -/
def arriving (l : List Bool) : Option Nat × List Bool :=
  (if l.headD true then some 99 else none, l.tail)

/-- The default user, of a server that supports `SIZE`. -/
def sized : FTPBlob := { anonymous with pendingFeatures := some { supportsSize := true } }

theorem loginPlain_sized : LoginPlain sized := ⟨by decide, by decide, by decide⟩

/-- `exists` of a key of one letter. -/
def existsCall (c : Char) (h : ¬ BreaksLine [c]) : { c // Ordinary c } := ⟨.exists' [c], h⟩

/-- Every receive delivers what is on the wire. -/
def prompt (n : Unit) : Option Nat × Unit := (some 99, n)

theorem punctual_prompt : Punctual smallPeer prompt where
  control _ := nofun
  recv l s e := by cases l <;> exact nofun
  sendall l s x e := by cases l <;> exact nofun

/-- A line of `LIST`. -/
def listedLine : Bytes := line "-rwxr-xr-x 1 o g 1 Jan 1 00:00 a" ++ crlf

/-- `next(scan(""))`, with a server that answers in time. -/
def yieldedRun : Outcome PyExc (Option (Str × FtpGen Unit)) × State × Session (List Bytes) Unit :=
  ((Flavour.sync.backend sized 2).scan []).next.run (session smallPeer prompt) sized.start
    (.start [listedLine] ())

/-- The key that was yielded, and the generator that is suspended there. -/
def suspended : Str × FtpGen Unit :=
  match yieldedRun.1 with
  | .ok (some x) => x
  | _ => ([], .pure ())

/-- `exists("a")` in between. -/
def promptRun : Outcome PyExc Value × State × Session (List Bytes) Unit :=
  (operation sized 2 (existsCall 'a' (by decide))).run (session smallPeer prompt) yieldedRun.2.1
    yieldedRun.2.2

/-- The call is made while a scan is held that has yielded `a`. -/
theorem disciplined_exists : suspended.1 = ['a'] ∧ Quiet promptRun.2.1 promptRun.2.2 ∧
    (∀ c, wp (session smallPeer prompt) (operation sized 2 c) (fun _ _ t => t.toBook.Sound)
      promptRun.2.1 promptRun.2.2) ∧
    ∀ g ∈ [suspended.2], wp (session smallPeer prompt) g.next (fun _ _ t => t.toBook.Sound)
      promptRun.2.1 promptRun.2.2 := by
  have hkey : suspended.1 = ['a'] := by decide +kernel
  have hyielded : yieldedRun.1 = .ok (some suspended) := by
    unfold suspended at hkey ⊢
    split at hkey
    · assumption
    · cases hkey
  have hstart : Interleaved (session smallPeer prompt) (operation sized 2)
      (Flavour.sync.backend sized 2).scan (Fresh sized) sized.start (.start [listedLine] ())
      ([] ++ (Flavour.sync.backend sized 2).scan [] :: []) := .create [] (.init ⟨rfl, _, _, rfl⟩)
  have hcall : promptRun.1 ≠ .spun := by decide +kernel
  exact ⟨hkey, disciplined osErrors_small loginPlain_sized punctual_prompt
    ((hstart.yielded hyielded).call _ hcall)⟩

/-- A call of `exists` after the run `r`. -/
def existsAfter (c : Char) (h : ¬ BreaksLine [c])
    (r : State × Session (List Bytes) (List Bool)) :
    Outcome PyExc Value × State × Session (List Bytes) (List Bool) :=
  (operation sized 2 (existsCall c h)).run (session smallPeer arriving) r.1 r.2

/-- A new object, and the receives that time out. -/
def before (l : List Bool) : State × Session (List Bytes) (List Bool) := (sized.start, .start [] l)

theorem reachable_before (l : List Bool) : Reachable (session smallPeer arriving)
    (operation sized 2) (Fresh sized) (before l).1 (before l).2 := .init ⟨rfl, _, _, rfl⟩

/-- A login that times out after the greeting, and a second one. -/
def retriedRun : Outcome PyExc Value × State × Session (List Bytes) (List Bool) :=
  existsAfter 'a' (by decide) (existsAfter 'a' (by decide) (before [true, false])).2

theorem paired_retried : Quiet retriedRun.2.1 retriedRun.2.2 ∧
    ∀ c, wp (session smallPeer arriving) (operation sized 2 c)
      (fun _ _ t => t.late = true ∨ t.toBook.Sound) retriedRun.2.1 retriedRun.2.2 := by
  have hfirst : (existsAfter 'a' (by decide) (before [true, false])).1 ≠ .spun := by
    rw [show (existsAfter 'a' _ (before [true, false])).1 = .error (.blobError "timed out") from rfl]
    simp
  have hsecond : retriedRun.1 ≠ .spun := by
    rw [show retriedRun.1 = .ok (.bool true) from rfl]
    simp
  exact paired osErrors_small loginPlain_sized
    (((reachable_before [true, false]).step _ hfirst).step _ hsecond) rfl

/-- The answer to `exists("a")` is late. -/
def lateRun : Outcome PyExc Value × State × Session (List Bytes) (List Bool) :=
  existsAfter 'a' (by decide) (before [true, true, true, false])

/-- And then `exists("b")` is called. -/
def confusedRun : Outcome PyExc Value × State × Session (List Bytes) (List Bool) :=
  existsAfter 'b' (by decide) lateRun.2

/-- The second call reads the late reply to the first one, and returns that `b` exists. -/
theorem not_paired_late :
    Reachable (session smallPeer arriving) (operation sized 2) (Fresh sized) confusedRun.2.1
      confusedRun.2.2 ∧
    lateRun.1 = .error (.blobError "timed out") ∧ confusedRun.1 = .ok (.bool true) ∧
    confusedRun.2.2.matched = false := by
  have hlate : lateRun.1 = .error (.blobError "timed out") := rfl
  have hconfused : confusedRun.1 = .ok (.bool true) := rfl
  refine ⟨((reachable_before _).step _ ?_).step _ ?_, hlate, hconfused, rfl⟩
  · show lateRun.1 ≠ .spun
    rw [hlate]
    simp
  · show confusedRun.1 ≠ .spun
    rw [hconfused]
    simp

end GufoBlob.Ftp
