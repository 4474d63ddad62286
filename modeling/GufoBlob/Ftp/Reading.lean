import GufoBlob.Ftp.Framing
import GufoBlob.Ftp.Session

/-!
# Reading what the server sent

`_read_line` and `_read_response` in an environment of which only this is known: some octets are
still to be read, the buffer holds the first of them, and a receive appends more of them to it. A
`Source` is such an environment. `R rest` is the state in which `rest` is still to be read.

* `wp_readLine_source` — a line at the front is read, and nothing else.
* `wp_readResponse_source` — the same for a reply.

In both the environment may fail (`B`), a receive may raise (`X`), and the fuel runs out only when
there is not more of it than there are octets to read.
-/

namespace GufoBlob.Ftp

open Text Interaction Program FTPBlob

variable {E : Type}

/-- A receive has returned octets, which are not in the buffer yet, or has raised. -/
def arrived (X : PyExc → State → E → Prop) (R : State → E → Prop) (st : State) :
    Outcome PyExc Bytes → State → E → Prop
  | .ok data => fun st' w => st' = st ∧ data ≠ [] ∧
      R { st with responseBuffer := st.responseBuffer ++ data } w
  | .error e => X e
  | .spun => fun _ _ => False

/-- An environment in which `R rest` says that `rest` is still to be read. -/
structure Source (h : Handler ftp E) (fl : Flavour) (conn : FtpProg (Option (Sock .control)))
    (B K : E → Prop) (X : PyExc → State → E → Prop) (R : Bytes → State → E → Prop) : Prop where
  failed : ∀ w o, B w → B (h w o).2
  buffered : ∀ {rest st w}, R rest st w → st.responseBuffer <+: rest
  consumed : ∀ {l r rest st w}, ¬ HasCrlf l → st.responseBuffer = frame l ++ r →
    R (frame l ++ rest) st w → R rest { st with responseBuffer := r } w
  received : ∀ {rest st w}, ¬ HasCrlf st.responseBuffer → st.responseBuffer ≠ rest →
    R rest st w → wp h (receive fl.dialect conn) (orFailed B (arrived X (R rest) st)) st w
  sound : ∀ {rest st w}, R rest st w → K w

/-- The result is `a`, and after it the state is `R`. A loop runs out of fuel only when there is not
more of it than `size`. -/
def readResult {α : Type} (K : E → Prop) (X : PyExc → State → E → Prop) (R : State → E → Prop)
    (fuel size : Nat) (a : α) : Outcome PyExc α → State → E → Prop
  | .ok x => fun st w => x = a ∧ R st w
  | .error e => X e
  | .spun => fun _ w => fuel ≤ size ∧ K w

/-- Nothing is returned: a `BlobError` is raised, unless the environment raises. -/
def rejectResult {α : Type} (X : PyExc → State → E → Prop) (fuel size : Nat) :
    Outcome PyExc α → State → E → Prop
  | .ok _ => fun _ _ => False
  | .error e => fun st w => X e st w ∨ IsBlobError e
  | .spun => fun _ _ => fuel ≤ size

theorem length_frame_le {ls : List Bytes} {l : Bytes} (hl : l ∈ ls) :
    (frame l).length ≤ (ls.flatMap frame).length := by
  obtain ⟨l₁, l₂, rfl⟩ := List.append_of_mem hl
  simp
  omega

theorem length_le_frames (ls : List Bytes) : ls.length ≤ (ls.flatMap frame).length := by
  induction ls with
  | nil => exact Nat.le_refl 0
  | cons l ls ih =>
      simp only [List.flatMap_cons, List.length_append, List.length_cons, frame, crlf]
      omega

variable {h : Handler ftp E} {fl : Flavour} {conn : FtpProg (Option (Sock .control))}
  {B K : E → Prop} {X : PyExc → State → E → Prop} {R : Bytes → State → E → Prop} {st : State} {w : E}
  {rest : Bytes} {fuel : Nat}

namespace Source

variable (hsource : Source h fl conn B K X R)

include hsource

/-- The line that is cut off the buffer is the one at the front. -/
theorem cut {l x r : Bytes} (hl : ¬ HasCrlf l) (hw : R (frame l ++ rest) st w)
    (hcut : cutLine st.responseBuffer = some (x, r)) :
    x = l ∧ R rest { st with responseBuffer := r } w := by
  obtain ⟨y, hy⟩ := hsource.buffered hw
  have hfront := cutLine_append hcut y
  rw [hy, frame, cutLine_frame hl, Option.some.injEq, Prod.mk.injEq] at hfront
  obtain rfl := hfront.1
  refine ⟨rfl, hsource.consumed hl ?_ hw⟩
  rw [(cutLine_eq_some hcut).1, frame]

/-- Without a whole line, the buffer is shorter than the line. -/
theorem short {l : Bytes} (hw : R (frame l ++ rest) st w) (hbuf : ¬ HasCrlf st.responseBuffer) :
    st.responseBuffer.length < (frame l).length := by
  by_contra hle
  have hframe := List.prefix_of_prefix_length_le (List.prefix_append (frame l) rest)
    (hsource.buffered hw) (Nat.le_of_not_lt hle)
  exact hbuf ((List.suffix_append l crlf).isInfix.trans hframe.isInfix)

/-- A line at the front is read. -/
theorem wp_readLine_source {l : Bytes} (hl : ¬ HasCrlf l) (hw : R (frame l ++ rest) st w) :
    wp h (readLine fl.dialect fuel conn)
      (orFailed B (readResult K X (R rest) fuel (frame l).length l)) st w := by
  -- what the fuel lacks of the line, the buffer has
  have hloop : ∀ n st w, R (frame l ++ rest) st w →
      fuel ≤ (frame l).length ∨ 0 < n ∧ (frame l).length < n + st.responseBuffer.length →
      wp h (readLineLoop fl.dialect conn n)
        (orFailed B (readResult K X (R rest) fuel (frame l).length l)) st w := by
    intro n
    induction n with
    | zero =>
        intro st w hw hn
        exact .inr ⟨hn.resolve_right fun h => absurd h.1 (Nat.lt_irrefl 0), hsource.sound hw⟩
    | succ n ih =>
        intro st w hw hn
        unfold readLineLoop
        rw [bind_eq, wp_bind, wp_read, bindPost_ok]
        cases hcut : cutLine st.responseBuffer with
        | some x => exact .inr (hsource.cut hl hw hcut)
        | none =>
            have hbuf := cutLine_eq_none_iff.mp hcut
            have hshort := hsource.short hw hbuf
            have hmore : st.responseBuffer ≠ frame l ++ rest := by
              intro heq
              rw [heq, List.length_append] at hshort
              omega
            apply wp_bind_unless hsource.failed (hsource.received hbuf hmore hw)
            · rintro data st' w' ⟨rfl, hdata, hw'⟩
              have hpos := List.length_pos_of_ne_nil hdata
              rw [if_neg (by simpa using hdata), bind_eq, wp_bind, wp_appendBuffer, bindPost_ok]
              apply ih _ _ hw'
              rw [List.length_append]
              omega
            · exact fun _ _ _ he => he
            · exact fun _ _ hspun => hspun.elim
  apply hloop fuel st w hw
  omega

/-- The further lines of a reply are read, up to the one that ends it. -/
theorem wp_moreLines_source {first last : Bytes} {between : List Bytes}
    (hbreak : ∀ l ∈ between ++ [last], ¬ HasCrlf l)
    (hbetween : ∀ l ∈ between, endsReply first l = false) (hlast : endsReply first last = true)
    {size : Nat} (hsize : ∀ l ∈ between ++ [last], (frame l).length ≤ size) {n : Nat}
    (hn : fuel ≤ size ∨ between.length < n) (lines : List Bytes)
    (hw : R ((between ++ [last]).flatMap frame ++ rest) st w) :
    wp h (moreLines fl.dialect fuel conn first n lines)
      (orFailed B (readResult K X (R rest) fuel size (lines ++ (between ++ [last])))) st w := by
  induction between generalizing n lines st w with
  | nil =>
      cases n with
      | zero => exact .inr ⟨hn.resolve_right (Nat.not_lt_zero _), hsource.sound hw⟩
      | succ n =>
          rw [List.nil_append, List.flatMap_singleton] at hw
          apply wp_bind_unless hsource.failed
            (hsource.wp_readLine_source (hbreak last (by simp)) hw)
          · rintro x st' w' ⟨rfl, hw'⟩
            rw [if_pos hlast]
            exact .inr ⟨rfl, hw'⟩
          · exact fun _ _ _ he => he
          · exact fun _ _ hspun => ⟨hspun.1.trans (hsize last (by simp)), hspun.2⟩
  | cons l between ih =>
      cases n with
      | zero => exact .inr ⟨hn.resolve_right (Nat.not_lt_zero _), hsource.sound hw⟩
      | succ n =>
          rw [List.cons_append, List.flatMap_cons, List.append_assoc] at hw
          apply wp_bind_unless hsource.failed (hsource.wp_readLine_source (hbreak l (by simp)) hw)
          · rintro x st' w' ⟨rfl, hw'⟩
            rw [if_neg (by simp [hbetween x])]
            have hrest := ih (fun y hy => hbreak y (List.mem_cons_of_mem _ hy))
              (fun y hy => hbetween y (List.mem_cons_of_mem _ hy))
              (fun y hy => hsize y (List.mem_cons_of_mem _ hy))
              (hn.imp_right Nat.lt_of_succ_lt_succ) (lines ++ [x]) hw'
            rwa [List.append_assoc] at hrest
          · exact fun _ _ _ he => he
          · exact fun _ _ hspun => ⟨hspun.1.trans (hsize l (by simp)), hspun.2⟩

/-- A reply at the front is read, and nothing else. -/
theorem wp_readResponse_source (r : Reply) (hw : R (r.bytes ++ rest) st w) :
    wp h (readResponse fl.dialect fuel conn)
      (orFailed B (readResult K X (R rest) fuel r.bytes.length (r.code, r.lines))) st w := by
  obtain ⟨code, first, more, hbreak, hlength, hcode, hmore⟩ := r
  unfold Reply.bytes Reply.lines at hw ⊢
  dsimp only at hw ⊢
  have hfirst := hbreak first List.mem_cons_self
  have hsize : (frame first).length ≤ ((first :: more).flatMap frame).length :=
    length_frame_le List.mem_cons_self
  rw [List.flatMap_cons, List.append_assoc] at hw
  unfold readResponse
  apply wp_bind_unless hsource.failed (hsource.wp_readLine_source hfirst hw)
  · rintro x st' w' ⟨rfl, hw'⟩
    rw [if_neg (Nat.not_lt.mpr hlength), bind_eq, wp_bind, wp_ofExcept, hcode, bindPost_ok]
    unfold Completes at hmore
    split at hmore
    -- a reply of several lines, `ddd-text` up to `ddd text`
    · next hdash =>
        obtain ⟨between, last, rfl, hbetween, hlast⟩ := hmore
        rw [if_pos hdash]
        have hsizes : ∀ l ∈ between ++ [last],
            (frame l).length ≤ ((x :: (between ++ [last])).flatMap frame).length :=
          fun l hl => length_frame_le (List.mem_cons_of_mem x hl)
        have hcount : fuel ≤ ((x :: (between ++ [last])).flatMap frame).length ∨
            between.length < fuel := by
          have hlines := length_le_frames (x :: (between ++ [last]))
          rw [List.length_cons, List.length_append] at hlines
          omega
        apply wp_bind_unless hsource.failed (hsource.wp_moreLines_source
          (fun l hl => hbreak l (List.mem_cons_of_mem x hl)) hbetween hlast hsizes hcount [x] hw')
        · rintro lines st'' w'' ⟨rfl, hw''⟩
          exact .inr ⟨rfl, hw''⟩
        · exact fun _ _ _ he => he
        · exact fun _ _ hspun => hspun
    · next hdash =>
        subst hmore
        rw [if_neg hdash]
        exact .inr ⟨rfl, hw'⟩
  · exact fun _ _ _ he => he
  · exact fun _ _ hspun => ⟨hspun.1.trans hsize, hspun.2⟩

/-- A first line that is no code is not read as one. -/
theorem wp_readResponse_rejects (fuel : Nat) {l : Bytes} (hl : ¬ HasCrlf l)
    (hreject : l.length < minFtpResponse ∨
      ∃ msg, bytesToIntRange (l.take 3) 0 999 = .error (.blobError msg))
    (hw : R (frame l ++ rest) st w) :
    wp h (readResponse fl.dialect fuel conn)
      (orFailed B (rejectResult X fuel (frame l).length)) st w := by
  unfold readResponse
  apply wp_bind_unless hsource.failed (hsource.wp_readLine_source hl hw)
  · rintro x st' w' ⟨rfl, hw'⟩
    split
    · exact .inr (.inr trivial)
    · next hlength =>
        obtain ⟨msg, hmsg⟩ := hreject.resolve_left hlength
        rw [bind_eq, wp_bind, wp_ofExcept, hmsg]
        exact .inr (.inr trivial)
  · exact fun _ _ _ he => .inl he
  · exact fun _ _ hspun => hspun.1

end Source

end GufoBlob.Ftp
