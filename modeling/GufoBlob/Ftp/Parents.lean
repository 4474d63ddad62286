import GufoBlob.Ftp.Injection
import GufoBlob.Ftp.PutGet

/-!
# The directories of a key

`put` makes the directories that a key lies in, and then stores the data under the key. It sends the
key as it is, but it strips the slashes off before it looks for the directories, so that the server
takes the two for different places when the key is absolute.

* `makesParents_iff` — the directories that are made are those on the way to the file exactly when
  the key is relative, or the server is in its root directory, or there are none.
* `not_makesParents_absolute` — `put("/a/b", …)` in the directory `/home`.
-/

namespace GufoBlob.Ftp

open Text Interaction Program FTPBlob

/-! ## Paths on a server -/

/-- One component of a path. -/
def climb (dir : List Str) (part : Str) : List Str :=
  if part = ['.'] then dir else if part = ['.', '.'] then dir.dropLast else dir ++ [part]

/-- Where a path begins: in the root directory, when it is absolute. -/
def startDir (cwd : List Str) (path : Str) : List Str := if path.head? = some '/' then [] else cwd

/-- The place that a path names in the working directory `cwd`. -/
def resolvePath (cwd : List Str) (path : Str) : List Str :=
  (components path).foldl climb (startDir cwd path)

/-- The directory `p` lies below `base`, on the way to `target`. -/
def OnTheWay (base target p : List Str) : Prop := base <+: p ∧ p ≠ base ∧ p <+: target ∧ p ≠ target

/-- Components that are names. -/
def IsName (part : Str) : Prop := IsPart part ∧ part ≠ ['.'] ∧ part ≠ ['.', '.']

/-- A key made of names, with slashes around it. -/
structure PathKey where
  leading : Nat
  names : List Str
  trailing : Nat
  ne_nil : names ≠ []
  isName : ∀ x ∈ names, IsName x

/-- The key itself. -/
def PathKey.text (k : PathKey) : Str :=
  List.replicate k.leading '/' ++ joinSlash k.names ++ List.replicate k.trailing '/'

theorem foldl_climb {names : List Str} (h : ∀ x ∈ names, IsName x) (dir : List Str) :
    names.foldl climb dir = dir ++ names := by
  induction names generalizing dir with
  | nil => simp
  | cons x xs ih =>
      obtain ⟨⟨-, hdot, hdots⟩, hxs⟩ := List.forall_mem_cons.mp h
      rw [List.foldl_cons, climb, if_neg hdot, if_neg hdots, ih hxs]
      simp

theorem components_append_slash (p q : Str) :
    components (p ++ '/' :: q) = components p ++ components q := by
  unfold components
  rw [List.splitOn_eq_splitOnP, List.splitOn_eq_splitOnP, List.splitOn_eq_splitOnP,
    List.splitOnP_append_cons p q (by simp), List.filter_append]

theorem components_slashes (n : Nat) : components (List.replicate n '/') = [] := by
  induction n with
  | zero => rfl
  | succ n ih =>
      have hcons := components_append_slash [] (List.replicate n '/')
      rw [List.replicate_succ]
      exact hcons.trans ih

namespace PathKey

variable (k : PathKey)

theorem isPart {x : Str} (hx : x ∈ k.names) : IsPart x := (k.isName x hx).1

theorem components_text : components k.text = k.names := by
  have hleft : ∀ n s, components (List.replicate n '/' ++ s) = components s := by
    intro n s
    induction n with
    | zero => rfl
    | succ n ih =>
        have hcons := components_append_slash [] (List.replicate n '/' ++ s)
        exact hcons.trans ih
  have hright : ∀ n s, components (s ++ List.replicate n '/') = components s := by
    intro n s
    cases n with
    | zero => rw [List.replicate_zero, List.append_nil]
    | succ n => rw [List.replicate_succ, components_append_slash, components_slashes,
        List.append_nil]
  rw [text, hright, hleft, components_joinSlash fun x => k.isPart]

theorem strip_text : strip isSlash k.text = joinSlash k.names := by
  have hslash : ∀ n, ∀ c ∈ List.replicate n '/', isSlash c = true := by
    intro n c hc
    rw [List.eq_of_mem_replicate hc]
    rfl
  obtain ⟨c, u, hc, hu⟩ := exists_joinSlash_eq_cons k.ne_nil fun x => k.isPart
  have hleft : lstrip isSlash k.text = joinSlash k.names ++ List.replicate k.trailing '/' := by
    rw [lstrip, text, List.append_assoc, List.dropWhile_append_of_pos (hslash _), hu,
      List.cons_append, List.dropWhile_cons_of_neg (by simpa [isSlash] using hc)]
  have hright : rstrip isSlash (joinSlash k.names ++ List.replicate k.trailing '/') =
      rstrip isSlash (joinSlash k.names) := by
    rw [rstrip, List.reverse_append, List.reverse_replicate,
      List.dropWhile_append_of_pos (hslash _)]
    rfl
  rw [strip, hleft, hright, rstrip_joinSlash fun x => k.isPart]

/-- The directories are those of the key without its slashes. -/
theorem mem_iterParentDirs_iff {dir : Str} :
    dir ∈ iterParentDirs k.text ↔
      ∃ n, 0 < n ∧ n < k.names.length ∧ dir = joinSlash (k.names.take n) := by
  have hsplit : (joinSlash k.names).splitOn '/' = k.names :=
    List.splitOn_intercalate '/' (fun x hx => (k.isPart hx).2) k.ne_nil
  unfold iterParentDirs
  rw [k.strip_text]
  dsimp only
  rw [hsplit, List.mem_map]
  constructor
  · rintro ⟨n, hn, rfl⟩
    have hn := List.mem_range.mp hn
    exact ⟨n + 1, by omega, by omega, rfl⟩
  · rintro ⟨n, hpos, hlt, rfl⟩
    refine ⟨n - 1, List.mem_range.mpr (by omega), ?_⟩
    rw [Nat.sub_add_cancel hpos]

theorem startDir_text (cwd : List Str) :
    startDir cwd k.text = if k.leading = 0 then cwd else [] := by
  obtain ⟨c, u, hc, hu⟩ := exists_joinSlash_eq_cons k.ne_nil fun x => k.isPart
  unfold startDir text
  rw [hu]
  cases k.leading with
  | zero => simp [hc]
  | succ n => simp [List.replicate_succ]

/-- The file. -/
theorem resolvePath_text (cwd : List Str) :
    resolvePath cwd k.text = startDir cwd k.text ++ k.names := by
  rw [resolvePath, k.components_text, foldl_climb k.isName]

/-- A directory that is made: it is relative. -/
theorem resolvePath_take (cwd : List Str) {n : Nat} (hn : 0 < n) :
    resolvePath cwd (joinSlash (k.names.take n)) = cwd ++ k.names.take n := by
  have hname : ∀ x ∈ k.names.take n, IsName x := fun x hx => k.isName x (List.mem_of_mem_take hx)
  have hne : k.names.take n ≠ [] := by
    intro hnil
    rcases List.take_eq_nil_iff.mp hnil with h | h
    · omega
    · exact k.ne_nil h
  obtain ⟨c, u, hc, hu⟩ := exists_joinSlash_eq_cons hne fun x hx => (hname x hx).1
  have hstart : startDir cwd (joinSlash (k.names.take n)) = cwd := by
    rw [startDir, hu]
    simp [hc]
  rw [resolvePath, hstart, components_joinSlash fun x hx => (hname x hx).1, foldl_climb hname]

/-- The directories on the way to the file. -/
theorem onTheWay_iff (base p : List Str) :
    OnTheWay base (base ++ k.names) p ↔
      ∃ n, 0 < n ∧ n < k.names.length ∧ p = base ++ k.names.take n := by
  constructor
  · rintro ⟨⟨q, rfl⟩, hne, hprefix, hne'⟩
    have hq : q <+: k.names := (List.prefix_append_right_inj base).mp hprefix
    have htake : q = k.names.take q.length := List.prefix_iff_eq_take.mp hq
    refine ⟨q.length, ?_, ?_, congrArg _ htake⟩
    · rw [List.length_pos_iff]
      rintro rfl
      exact hne (List.append_nil base)
    · apply lt_of_le_of_ne hq.length_le
      intro hlength
      exact hne' (congrArg _ (hq.eq_of_length hlength))
  · rintro ⟨n, hpos, hlt, rfl⟩
    have hlength : (k.names.take n).length = n := List.length_take_of_le hlt.le
    refine ⟨List.prefix_append _ _, fun heq => ?_, ?_, fun heq => ?_⟩
    · have hnil := List.append_right_eq_self.mp heq
      rw [hnil] at hlength
      simp at hlength
      omega
    · exact (List.prefix_append_right_inj base).mpr (List.take_prefix _ _)
    · rw [List.append_cancel_left heq] at hlength
      omega

end PathKey

/-! ## What `put` makes -/

/-- The call sends `MKD` with the path `dir`. -/
def Makes (log : List Event) (dir : Str) : Prop := ∃ id, mkdCmd dir ∈ commands id log

/-- The call sends `STOR` with the key. -/
def Stores (log : List Event) (key : Str) : Prop := ∃ id, storCmd key ∈ commands id log

/-- In the working directory `cwd`, the directories that are made are those on the way to the file. -/
def MakesParents (cwd : List Str) (key : Str) (log : List Event) : Prop :=
  ∀ p, (∃ dir, Makes log dir ∧ resolvePath cwd dir = p) ↔
    OnTheWay (startDir cwd key) (resolvePath cwd key) p

section Run

variable {E : Type} {h : Handler ftp E} {fl : Flavour} {b : FTPBlob} {fuel : Nat} {st : State}
  {t : Transcript E} {key : Str}

/-- The commands of a login make no directory and store nothing. -/
theorem not_loginCmd {c : Str} (hc : c.head? = some 'M' ∨ c.head? = some 'S') : ¬ LoginCmd b c := by
  have hhead : ∀ a, c.head? = some a → a = 'M' ∨ a = 'S' := by
    intro a ha
    rw [ha] at hc
    exact hc.imp Option.some.inj Option.some.inj
  intro hlogin
  cases hlogin with
  | user => exact absurd (hhead 'U' rfl) (by decide)
  | pass => exact absurd (hhead 'P' rfl) (by decide)
  | cwd => exact absurd (hhead 'C' rfl) (by decide)
  | type => exact absurd (hhead 'T' rfl) (by decide)

theorem mkdCmd_ne_storCmd (dir key : Str) : mkdCmd dir ≠ storCmd key := by
  intro heq
  have hhead : some 'M' = some 'S' := congrArg List.head? heq
  cases hhead

/-- The features that the caller set are set after every run. -/
theorem sends_run (hrun : Run h fl b fuel st t) {allowed : Str → Prop} :
    Sends allowed b st (⟨t.env, t.next, []⟩ : Transcript E) := by
  have hstart : ∀ e : E, Sends (fun _ => True) b b.start (.fresh e : Transcript E) :=
    fun e => ⟨fun _ => ⟨rfl, fun _ _ => trivial⟩, fun f hf => hf⟩
  have hsends : Sends (fun _ => True) b st t :=
    hrun.invariant hstart fun c => keepsSends_perform (fun _ _ => trivial) fun _ _ => trivial
  exact ⟨fun _ => ⟨rfl, by simp [commands]⟩, hsends.2⟩

/-- The directories are made that `iter_parent_dirs` gives. -/
theorem mem_of_makes (hrun : Run h fl b fuel st t) {data : Bytes} {dir : Str}
    (hmakes : Makes (callLog h (fl.backend b fuel) (.put key data) st t) dir) :
    dir ∈ iterParentDirs key := by
  have hkeeps : KeepsSends h (fun x => LoginCmd b x ∨ Meant (.put key data) x) b
      ((fl.backend b fuel).perform (.put key data)) :=
    keepsSends_perform (fun _ => .inl) fun _ => .inr
  have hlog : Aligned (fun x => LoginCmd b x ∨ Meant (.put key data) x)
      (callLog h (fl.backend b fuel) (.put key data) st t) := (hkeeps _ _ (sends_run hrun)).1
  obtain ⟨id, hmem⟩ := hmakes
  rcases (hlog id).2 _ hmem with hlogin | hmeant
  · exact absurd hlogin (not_loginCmd (.inl rfl))
  · generalize hc : mkdCmd dir = c at hmeant
    cases hmeant with
    | mkd hdir =>
        obtain rfl := List.append_cancel_left hc
        exact hdir
    | storPasv => exact absurd hc (append_ne_of_head (by decide) dir)
    | stor => exact absurd hc (mkdCmd_ne_storCmd _ _)

theorem asked_recording (h : Handler ftp E) (c : Str) (s : Sock .control) (t : Transcript E) :
    Asked c (recording h t (.asked s c)).2 := by
  refine ⟨s.id, ?_⟩
  show c ∈ commands s.id (t.log ++ [.asked s.id c])
  rw [commands_append]
  exact List.mem_append_right _ (by simp [commands, Event.command])

/-- A directory is made by a command. -/
theorem wp_makeDir_asked {d : Dialect} {conn : FtpProg (Option (Sock .control))} (dir : Str)
    (st : State) (t : Transcript E) :
    wp (recording h) (makeDir d fuel conn dir)
      (fun o _ t => o = .ok () → Asked (mkdCmd dir) t) st t := by
  unfold makeDir
  rw [bind_eq, wp_bind]
  apply wp_mono (wp_cmd_of_asked (asked_stable h _) (asked_recording h _) st t)
  rintro (r | e | _) st' t' hasked
  · rw [bindPost_ok]
    dsimp only
    split
    · simp
    · exact fun _ => hasked r rfl
  · simp
  · simp

theorem wp_makeDirs_asked {d : Dialect} {conn : FtpProg (Option (Sock .control))} (dirs : List Str)
    (st : State) (t : Transcript E) :
    wp (recording h) (Program.forEach dirs (makeDir d fuel conn))
      (fun o _ t => o = .ok () → ∀ dir ∈ dirs, Asked (mkdCmd dir) t) st t := by
  induction dirs generalizing st t with
  | nil => exact fun _ => by simp
  | cons dir dirs ih =>
      rw [Program.forEach, wp_bind]
      apply wp_mono (wp_makeDir_asked dir st t)
      rintro (u | e | _) st' t' hasked
      · rw [bindPost_ok]
        have hstays := preserves_of_stable (asked_stable h (mkdCmd dir))
          (Program.forEach dirs (makeDir d fuel conn)) st' t' (hasked rfl)
        apply wp_mono (wp_and (ih st' t') hstays)
        rintro o st'' t'' ⟨hrest, hdir⟩ ho
        exact List.forall_mem_cons.mpr ⟨hdir, hrest ho⟩
      · simp
      · simp

/-- Before the key is stored, all of them are made. -/
theorem makes_of_stores (hrun : Run h fl b fuel st t) {data : Bytes}
    (hstores : Stores (callLog h (fl.backend b fuel) (.put key data) st t) key) {dir : Str}
    (hdir : dir ∈ iterParentDirs key) :
    Makes (callLog h (fl.backend b fuel) (.put key data) st t) dir := by
  let makes : Str → Prop := fun x => LoginCmd b x ∨ ∃ dir, x = mkdCmd dir
  have hconn : KeepsSends h makes b (fl.connection b fuel) :=
    keepsSends_connection (fun _ => .inl) fuel
  have hdirs : KeepsSends h makes b (ensureParentDirs fl.dialect fuel (fl.connection b fuel) key) :=
    ensureParentDirs_of (keepsSends_transfers hconn) fun dir _ => .inr ⟨dir, rfl⟩
  -- nothing is stored while the directories are made
  have hno : ∀ (st : State) (t : Transcript E), Sends makes b st t → ¬ Asked (storCmd key) t := by
    rintro st t hsends ⟨id, hmem⟩
    rcases (hsends.1 id).2 _ hmem with hlogin | ⟨dir, heq⟩
    · exact not_loginCmd (.inr rfl) hlogin
    · exact mkdCmd_ne_storCmd dir key heq.symm
  have hasked : wp (recording h) (ensureParentDirs fl.dialect fuel (fl.connection b fuel) key)
      (fun o _ t => o = .ok () → ∀ dir ∈ iterParentDirs key, Asked (mkdCmd dir) t) st
      ⟨t.env, t.next, []⟩ := wp_makeDirs_asked _ _ _
  have hput : wp (recording h) (put fl.dialect fuel (fl.connection b fuel) key data)
      (fun _ _ t => Asked (storCmd key) t → ∀ dir ∈ iterParentDirs key, Asked (mkdCmd dir) t) st
      ⟨t.env, t.next, []⟩ := by
    unfold put
    rw [bind_eq, wp_bind]
    apply wp_mono (wp_and (hdirs _ _ (sends_run hrun)) hasked)
    rintro (u | e | _) st' t' ⟨hsends, hmade⟩
    · have hstable : ∀ t o, (∀ dir ∈ iterParentDirs key, Asked (mkdCmd dir) t) →
          ∀ dir ∈ iterParentDirs key, Asked (mkdCmd dir) (recording h t o).2 :=
        fun t o hall dir hdir => asked_stable h _ t o (hall dir hdir)
      rw [bindPost_ok]
      apply wp_mono (preserves_of_stable hstable _ st' t' (hmade rfl))
      exact fun _ _ _ hall _ => hall
    · exact fun hstor => absurd hstor (hno _ _ hsends)
    · exact fun hstor => absurd hstor (hno _ _ hsends)
  have hperform : wp (recording h) ((fl.backend b fuel).perform (.put key data))
      (fun _ _ t => Asked (storCmd key) t → ∀ dir ∈ iterParentDirs key, Asked (mkdCmd dir) t) st
      ⟨t.env, t.next, []⟩ := by
    show wp (recording h) ((put fl.dialect fuel (fl.connection b fuel) key data).bind _) _ _ _
    rw [wp_bind]
    apply wp_mono hput
    rintro (u | e | _) st' t' hmade
    · exact hmade
    · exact hmade
    · exact hmade
  exact hperform hstores dir hdir

/-- The directories that are made: the beginnings of the key, in the working directory. -/
theorem makes_iff (hrun : Run h fl b fuel st t) {k : PathKey} {data : Bytes}
    (hstores : Stores (callLog h (fl.backend b fuel) (.put k.text data) st t) k.text)
    (cwd p : List Str) :
    (∃ dir, Makes (callLog h (fl.backend b fuel) (.put k.text data) st t) dir ∧
        resolvePath cwd dir = p) ↔
      ∃ n, 0 < n ∧ n < k.names.length ∧ p = cwd ++ k.names.take n := by
  constructor
  · rintro ⟨dir, hmakes, rfl⟩
    obtain ⟨n, hpos, hlt, rfl⟩ := k.mem_iterParentDirs_iff.mp (mem_of_makes hrun hmakes)
    exact ⟨n, hpos, hlt, k.resolvePath_take cwd hpos⟩
  · rintro ⟨n, hpos, hlt, rfl⟩
    refine ⟨_, makes_of_stores hrun hstores ?_, k.resolvePath_take cwd hpos⟩
    exact k.mem_iterParentDirs_iff.mpr ⟨n, hpos, hlt, rfl⟩

/-- **`put` makes the directories that it stores into exactly when the key is relative**, or means
the same in the working directory, or needs none: after every run of an object, for every server and
in every working directory of it, whenever the call comes as far as `STOR`. -/
theorem makesParents_iff (hrun : Run h fl b fuel st t) (k : PathKey) (data : Bytes)
    (hstores : Stores (callLog h (fl.backend b fuel) (.put k.text data) st t) k.text)
    (cwd : List Str) :
    MakesParents cwd k.text (callLog h (fl.backend b fuel) (.put k.text data) st t) ↔
      k.leading = 0 ∨ cwd = [] ∨ k.names.length = 1 := by
  have hsame : MakesParents cwd k.text (callLog h (fl.backend b fuel) (.put k.text data) st t) ↔
      ∀ p, (∃ n, 0 < n ∧ n < k.names.length ∧ p = cwd ++ k.names.take n) ↔
        ∃ n, 0 < n ∧ n < k.names.length ∧ p = startDir cwd k.text ++ k.names.take n := by
    unfold MakesParents
    refine forall_congr' fun p => ?_
    rw [makes_iff hrun hstores, k.resolvePath_text, k.onTheWay_iff]
  have hlength : 0 < k.names.length := List.length_pos_iff.mpr k.ne_nil
  rw [hsame, k.startDir_text]
  constructor
  · intro hall
    by_contra hnone
    obtain ⟨hleading, hcwd, hone⟩ : k.leading ≠ 0 ∧ cwd ≠ [] ∧ k.names.length ≠ 1 := by
      simpa only [not_or] using hnone
    -- the first directory below `/` is too short to lie below the working directory
    obtain ⟨n, hpos, hlt, heq⟩ := (hall (k.names.take 1)).mpr
      ⟨1, by omega, by omega, by rw [if_neg hleading, List.nil_append]⟩
    have hlengths := congrArg List.length heq
    rw [List.length_append, List.length_take, List.length_take] at hlengths
    have hcwd := List.length_pos_iff.mpr hcwd
    omega
  · rintro (hrelative | rfl | hone)
    · rw [if_pos hrelative]
      exact fun _ => Iff.rfl
    · rw [ite_self]
      exact fun _ => Iff.rfl
    · rw [hone]
      intro p
      constructor
      · rintro ⟨n, hpos, hlt, -⟩
        omega
      · rintro ⟨n, hpos, hlt, -⟩
        omega

end Run

/-! ## A key in two directories -/

theorem isName_ab : ∀ x ∈ [['a'], ['b']], IsName x := by
  unfold IsName IsPart
  decide

/-- The key `a/b`, with slashes before it. -/
def keyAB (leading : Nat) : PathKey where
  leading
  names := [['a'], ['b']]
  trailing := 0
  ne_nil := List.cons_ne_nil _ _
  isName := isName_ab

/-- A server that accepts the user, makes a directory, and begins a transfer. -/
def storeScript : List Bytes :=
  loginScript anonymous ++ ["257 .", "227 (1,1,1,1,1,1)", "150 ."].map fun r => line r ++ crlf

/-- What a new object sends when it puts the key. -/
def storeLog (fl : Flavour) (leading : Nat) : List Event :=
  callLog scripted (fl.backend anonymous 2) (.put (keyAB leading).text []) anonymous.start
    (.fresh storeScript)

theorem commands_storeLog (fl : Flavour) : (commands 0 (storeLog fl 0) =
      ["USER anonymous", "TYPE I", "MKD a", "PASV", "STOR a/b"].map String.toList) ∧
    commands 0 (storeLog fl 1) =
      ["USER anonymous", "TYPE I", "MKD a", "PASV", "STOR /a/b"].map String.toList := by
  cases fl <;> decide

/-- In both classes, the directory `a` is made for the file `a/b`. -/
theorem makesParents_relative :
    MakesParents ["home".toList] "a/b".toList (storeLog .sync 0) ∧
      MakesParents ["home".toList] "a/b".toList (storeLog .aio 0) := by
  have hmakes : ∀ fl, MakesParents ["home".toList] "a/b".toList (storeLog fl 0) := by
    intro fl
    have hrun : Run scripted fl anonymous 2 anonymous.start (.fresh storeScript) :=
      .init ⟨rfl, storeScript, rfl⟩
    have hstores : Stores (storeLog fl 0) "a/b".toList := by
      refine ⟨0, ?_⟩
      rw [(commands_storeLog fl).1]
      decide
    exact (makesParents_iff hrun (keyAB 0) [] hstores ["home".toList]).mpr (.inl rfl)
  exact ⟨hmakes .sync, hmakes .aio⟩

/-- In the directory `/home`, the directory `/home/a` is made for the file `/a/b`. -/
theorem not_makesParents_absolute :
    (Stores (storeLog .sync 1) "/a/b".toList ∧
        ¬ MakesParents ["home".toList] "/a/b".toList (storeLog .sync 1)) ∧
      Stores (storeLog .aio 1) "/a/b".toList ∧
        ¬ MakesParents ["home".toList] "/a/b".toList (storeLog .aio 1) := by
  have hstray : ∀ fl, Stores (storeLog fl 1) "/a/b".toList ∧
      ¬ MakesParents ["home".toList] "/a/b".toList (storeLog fl 1) := by
    intro fl
    refine ⟨⟨0, ?_⟩, fun hmakes => ?_⟩
    · rw [(commands_storeLog fl).2]
      decide
    · have hmade : Makes (storeLog fl 1) ['a'] := by
        refine ⟨0, ?_⟩
        rw [(commands_storeLog fl).2]
        decide
      obtain ⟨-, -, hprefix, -⟩ := (hmakes ["home".toList, ['a']]).mp ⟨['a'], hmade, by decide⟩
      exact absurd hprefix (by decide)
  exact ⟨hstray .sync, hstray .aio⟩

end GufoBlob.Ftp
