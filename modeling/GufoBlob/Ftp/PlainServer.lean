import GufoBlob.Ftp.Discipline
import GufoBlob.Ftp.Serving

/-!
# A plain server of files

A `FileServer` with the shortest replies: it knows every command but `FEAT`, gives the type and the
name of an entry and nothing else that matters, and keeps the entries in their order. The lines that
it writes are read back by the parsers.
-/

namespace GufoBlob.Ftp

open Text Data Interaction FTPBlob

/-! ## Replies -/

def Note.code : Note → Int
  | .greeting => ready
  | .needPassword => userOk
  | .loggedIn => loginOk
  | .entered => actionOk
  | .binary => ok
  | .passive => pasv
  | .opening => transferAlreadyOpen
  | .complete => transferDone
  | .created => Ftp.created
  | .sized => sizeOk
  | .refused => notFound
  | .unknown => 502

def Note.text : Note → Bytes
  | .greeting => line "220 ."
  | .needPassword => line "331 ."
  | .loggedIn => line "230 ."
  | .entered => line "250 ."
  | .binary => line "200 ."
  | .passive => line "227 (1,1,1,1,1,1)"
  | .opening => line "150 ."
  | .complete => line "226 ."
  | .created => line "257 ."
  | .sized => line "213 1"
  | .refused => line "550 ."
  | .unknown => line "502 ."

theorem Note.replyLine (n : Note) : ReplyLine n.code n.text := by
  cases n with
  | greeting => exact replyLine_ready
  | needPassword => exact replyLine_userOk
  | loggedIn => exact replyLine_loginOk
  | entered => exact replyLine_actionOk
  | binary => exact replyLine_ok
  | passive => exact replyLine_pasv
  | opening => exact replyLine_of_decide (by decide)
  | complete => exact replyLine_transferDone
  | created => exact replyLine_created
  | sized => exact replyLine_sizeOk
  | refused => exact replyLine_notFound
  | unknown => exact replyLine_of_decide (by decide)

theorem Note.allows_code (n : Note) : n.Allows n.code := by cases n <;> rfl

theorem Note.length_text (n : Note) : n.text.length ≤ 17 := by cases n <;> decide

/-- The line between the first and the last one of a reply to `MLST`. -/
def factsLine (path : List Str) (isDir : Bool) : Bytes :=
  32 :: (if isDir then typeDir else typeFile) ++ [59, 32] ++ encode (joinSlash path)

theorem replyLine_typeFile : ReplyLine actionOk (line "250 type=file") :=
  replyLine_of_decide (by decide)

/-- The answer to `MLST`. There are no files with a line break in their names. -/
def plainFacts (path : List Str) (isDir : Bool) : Reply :=
  if h : HasCrlf (factsLine path isDir) then .ofLine replyLine_typeFile
  else
    { code := actionOk
      first := line "250-."
      more := [factsLine path isDir] ++ [line "250 ."]
      noBreak := by
        intro l hl
        have hfirst : ¬ HasCrlf (line "250-.") := by decide
        have hlast : ¬ HasCrlf (line "250 .") := by decide
        grind
      length := by decide
      hcode := by decide
      completes := by
        unfold Completes
        rw [if_pos (by decide)]
        refine ⟨_, _, rfl, fun l hl => ?_, by decide⟩
        rw [List.mem_singleton.mp hl]
        -- it begins with a space, and not with the code
        simp [endsReply, factsLine, show (line "250-.").take 3 = [50, 53, 48] by decide] }

theorem lines_plainFacts {path : List Str} {isDir : Bool} (h : ¬ HasCrlf (factsLine path isDir)) :
    (plainFacts path isDir).lines = [line "250-.", factsLine path isDir, line "250 ."] := by
  unfold plainFacts
  rw [dif_neg h]
  rfl

/-! ## Listings -/

/-- The line of an entry, in front of the name. -/
def Lister.front (isDir : Bool) : Lister → Bytes
  | .list => line (if isDir then "drwxr-xr-x 1 u g 0 1 1 1" else "-rw-r--r-- 1 u g 0 1 1 1")
  | .mlsd => [if isDir then typeDir else typeFile].flatMap (· ++ [59])

theorem EntryName.not_isSpace {name : Str} (h : EntryName name) :
    ∀ b ∈ encode name, isSpace b = false := by
  intro b hb
  by_contra hspace
  have hmem : ∀ c ∈ [' ', '\t', '\n', '\x0b', '\x0c', '\r'], b ≠ UInt8.ofNat c.toNat := by
    rintro c hc rfl
    have hlt : c.toNat < 128 := by
      simp only [List.mem_cons, List.not_mem_nil, or_false] at hc
      rcases hc with rfl | rfl | rfl | rfl | rfl | rfl <;> decide
    exact h.space c ((mem_encode_iff hlt).mp hb) hc
  simp only [List.mem_cons, List.not_mem_nil, or_false, forall_eq_or_imp, forall_eq] at hmem
  simp [isSpace] at hspace
  grind

theorem EntryName.oneLine {name : Str} (h : EntryName name) : OneLine (encode name) :=
  oneLine_encode (fun hmem => h.space _ hmem (by decide)) fun hmem => h.space _ hmem (by decide)

/-- The line that is written for an entry is read back. -/
theorem Lister.parser_front (l : Lister) {name : Str} (isDir : Bool) (h : EntryName name) :
    l.parser (l.front isDir ++ 32 :: encode name) = .ok (name, isDir) := by
  cases l with
  | list =>
      have hperm : rxUnixPerm (Lister.list.front isDir ++ 32 :: encode name) = true := by
        cases isDir <;> rfl
      have hhead : (Lister.list.front isDir ++ 32 :: encode name).head? =
          some (if isDir then 100 else 45) := by
        cases isDir <;> rfl
      refine (parseListLine_append h.ne_nil h.not_isSpace hperm).trans ?_
      rw [hhead]
      cases isDir <;> rfl
  | mlsd =>
      have hfacts : ∀ f ∈ [if isDir then typeDir else typeFile], 59 ∉ f := by
        cases isDir <;> decide
      have hspace : name.head? ≠ some ' ' := by
        intro hhead
        exact h.space ' ' (List.mem_of_mem_head? hhead) (by decide)
      refine (parseMlsdLine_append hfacts h.ne_nil h.slash h.semicolon hspace).trans ?_
      cases isDir <;> rfl

theorem Lister.oneLine_front (l : Lister) (isDir : Bool) : OneLine (l.front isDir) := by
  unfold OneLine
  cases l <;> cases isDir <;> decide

/-! ## The server -/

/-- The network takes `accepts` of an upload, and a drain leaves up to `mark` octets. -/
def plainServer (accepts : List Nat) (mark : Nat) : FileServer where
  say n _ := .ofLine n.replyLine
  say_code n _ := n.allows_code
  address _ := ⟨("1.1.1.1".toList, 257), rfl⟩
  needsPassword := true
  supports := ⟨true, true, true⟩
  feat := .ofLine (Note.replyLine .unknown)
  feat_final := rfl
  facts := plainFacts
  facts_code path isDir := by
    unfold plainFacts
    split <;> rfl
  facts_file path := by
    unfold plainFacts
    split
    · decide
    · rw [List.any_eq_true]
      refine ⟨factsLine path false, List.mem_cons_of_mem _ List.mem_cons_self, ?_⟩
      rw [decide_eq_true_eq]
      exact ⟨[32], [59, 32] ++ encode (joinSlash path), rfl⟩
  limit := 19
  say_limit n _ := by
    have hlength := n.length_text
    simp [Reply.bytes, Reply.lines, Reply.ofLine, frame, crlf]
    omega
  feat_limit := by decide
  early _ := false
  line l _ name isDir := l.front isDir ++ 32 :: encode name
  line_parsed l _ _ isDir h := l.parser_front isDir h
  line_oneLine l _ name isDir h := by
    rw [← List.singleton_append, oneLine_append, oneLine_append]
    exact ⟨l.oneLine_front isDir, by unfold OneLine; decide, h.oneLine⟩
  order _ _ es := es
  order_perm _ _ es := .refl es
  piece _ n := n
  accepts := accepts
  mark := mark

theorem prompt_ne_none (n : Unit) : (prompt n).1 ≠ none := nofun

/-- The default user, of a server with the features `g`. -/
def knowing (g : FTPFeatures) : FTPBlob := { anonymous with pendingFeatures := some g }

/-- A server with these files, before a connection is opened. -/
def idleServer (tree : RemoteTree) : ServerState := ⟨tree, 0, .idle, .opened []⟩

/-- A new object is ready for every operation. -/
theorem serving_start {N : Type} (srv : FileServer) (g : FTPFeatures) (tree : RemoteTree) (n : N) :
    Serving srv (knowing g) g tree (knowing g).start (.start (idleServer tree) n) := by
  have hplain : LoginPlain (knowing g) :=
    ⟨loginPlain_sized.user, loginPlain_sized.password, loginPlain_sized.root⟩
  have hretries : 0 < anonymous.retries := by decide
  exact ⟨some g, rfl, .inr ⟨hplain, hretries, rfl, rfl, rfl, rfl, ⟨rfl, rfl⟩⟩⟩

end GufoBlob.Ftp
