import GufoBlob.File.Flat
import GufoBlob.Ftp.Flat
import GufoBlob.S3.Tenants
import GufoBlob.Sqlite.Flat

/-!
# Backends can be exchanged

The interface promises one behaviour of all backends. A program whose calls suit two of them, and that
starts with nothing stored, cannot tell them apart, but for the order in which `scan` lists the keys.

* `Deployment` — a backend with what it runs against and the state in which it starts.
* `Serves` — the calls suit the deployment. There is a rule for each backend, with the keys that it can
  keep apart.
* `Serves.flat` — then it is a flat store that starts empty and never fails.
-/

namespace GufoBlob

open Text Data Interaction Uri Xml S3 Ftp FlatStore

/-- A backend, whose loops may go on for some time, in its environment. -/
structure Deployment where
  I : Interface
  State : Type
  World : Type
  handler : Handler I World
  perform : Nat → Call → Program I State PyExc Value
  state : State
  world : World

namespace Deployment

/-- The outcomes of a row of calls. -/
def outcomes (d : Deployment) (fuel : Nat) (cs : List Call) : List (Outcome PyExc Value) :=
  (Program.runCalls d.handler (d.perform fuel) cs d.state d.world).1

/-- A new `MemoryBlob` without limits. -/
def memory (b : BlobBase locking MemoryBlob) : Deployment :=
  ⟨locking, MemoryBlob, Unit, uncontended, fun _ => b.perform, .init none none, ()⟩

/-- A `FileBlob` and the disk. -/
def file (f : FileBlob) (t : File.Disk) : Deployment :=
  ⟨File.fs, Unit, File.Disk, File.disk, fun _ => f.backend.perform, (), t⟩

/-- A `SQLiteBlob` on a new database. -/
def sqlite (q : SQLiteBlob) : Deployment :=
  ⟨_, _, _, q.runDriver fun _ => SQLiteBlob.noFaults, fun _ => q.backend.perform, none, (0, {})⟩

/-- An `S3Blob` of either class, with a bucket that holds some objects. -/
def s3 {expat : Expat} (srv : ObjectServer expat) (b : S3Blob) (async : Bool)
    (objects : Dict Str Bytes) : Deployment :=
  ⟨_, _, _, srv.handler b.bucket, fun fuel => (b.build expat async fuel).perform, (),
    (⟨objects, none⟩, 0)⟩

/-- An `FTPBlob` of either class, with a server of files. -/
def ftp {N : Type} (srv : FileServer) (net : N → Option Nat × N) (fl : Flavour) (b : FTPBlob)
    (st : FTPBlob.State) (t : Session ServerState N) : Deployment :=
  ⟨_, _, _, session srv.keeper net, fun fuel => (fl.backend b fuel).perform, st, t⟩

/-- The calls suit the deployment, and nothing is stored yet. -/
inductive Serves (cs : List Call) : Deployment → Prop where
  | memory {b : BlobBase locking MemoryBlob} : b ∈ MemoryBlob.backends → Serves cs (.memory b)
  | file {f : FileBlob} {t : File.Disk} {U : Str → Prop} : FileBlob.KeySet U → f.EmptyRoot t →
      (∀ c ∈ cs, FileBlob.Careful U c) → Serves cs (.file f t)
  | sqlite {q : SQLiteBlob} : (∀ c ∈ cs, SQLiteBlob.Plain c) → Serves cs (.sqlite q)
  | s3 {expat : Expat} {srv : ObjectServer expat} {b : S3Blob} {async : Bool} {o : Origin}
      {objects : Dict Str Bytes} : srv.Faultless → b.endpoint = o.url → rxBucket b.bucket = true →
      (∀ k ∈ objects.keys, k ≠ [] ∧ ¬ b.rawPrefix <+: k) → (∀ c ∈ cs, b.Allowed c) →
      Serves cs (.s3 srv b async objects)
  | ftp {N : Type} {srv : FileServer} {net : N → Option Nat × N} {fl : Flavour} {b : FTPBlob}
      {g : FTPFeatures} {U : Str → Prop} {tree : RemoteTree} {st : FTPBlob.State}
      {t : Session ServerState N} : (∀ n, (net n).1 ≠ none) → FTPBlob.LoginPlain b → 0 < b.retries →
      Within g srv.supports → KeySet U → Kept U tree.node → held tree.node = FlatStore.empty →
      Serving srv b g tree st t → (∀ c ∈ cs, Careful srv fl U c) → Serves cs (.ftp srv net fl b st t)

variable {cs : List Call} {d d' : Deployment}

/-- The calls are a history of a flat store that starts empty and never fails. -/
def Flat (cs : List Call) (d : Deployment) (fuel : Nat) : Prop :=
  (d.outcomes fuel cs).length = cs.length ∧
    Consistent noFailures FlatStore.empty (cs.zip (d.outcomes fuel cs))

theorem flat_memory {b : BlobBase locking MemoryBlob} (hb : b ∈ MemoryBlob.backends) (fuel : Nat) :
    Flat cs (.memory b) fuel := by
  have hall : ∀ c ∈ cs, True := fun _ _ => trivial
  obtain ⟨hlength, hmemory, -⟩ := consistent_of_refines (MemoryBlob.refines_flat hb none none)
    hall (s := .init none none) (w := ()) ⟨rfl, rfl, rfl⟩
  refine ⟨hlength, hmemory.mono ?_⟩
  rintro c e ⟨hlimit, -⟩
  simp at hlimit

theorem flat_file {f : FileBlob} {t : File.Disk} {U : Str → Prop} (hU : FileBlob.KeySet U)
    (ht : f.EmptyRoot t) (hcs : ∀ c ∈ cs, FileBlob.Careful U c) (fuel : Nat) :
    Flat cs (.file f t) fuel := by
  obtain ⟨hlength, hfile, -⟩ := consistent_of_refines (f.refines_flat hU) hcs (s := ()) (w := t)
    ⟨FileBlob.unlimited, ht.stores, rfl⟩
  exact ⟨hlength, hfile⟩

theorem flat_sqlite {q : SQLiteBlob} (hcs : ∀ c ∈ cs, SQLiteBlob.Plain c) (fuel : Nat) :
    Flat cs (.sqlite q) fuel := by
  obtain ⟨hlength, hsqlite, -⟩ := consistent_of_refines
    (q.refines_flat fun _ => SQLiteBlob.noFaults) hcs (s := none) (w := (0, {}))
    (m := FlatStore.empty)
    ⟨fun _ => .inl rfl, rfl, fun k hk => absurd hk List.not_mem_nil⟩
  refine ⟨hlength, hsqlite.mono ?_⟩
  rintro c e ⟨⟨n, op, hop⟩, -⟩
  exact hop rfl

/-- An object that has the bucket for itself, but for other keys. -/
theorem flat_s3 {expat : Expat} {srv : ObjectServer expat} {b : S3Blob} {o : Origin}
    {objects : Dict Str Bytes} (async : Bool) (hsrv : srv.Faultless) (hend : b.endpoint = o.url)
    (hb : rxBucket b.bucket = true) (hobjects : ∀ k ∈ objects.keys, k ≠ [] ∧ ¬ b.rawPrefix <+: k)
    (hcs : ∀ c ∈ cs, b.Allowed c) : ∃ fuel, ∀ more, fuel ≤ more →
      Flat cs (.s3 srv b async objects) more := by
  let sh : S3Blob.Sharing Unit :=
    { bucket := b.bucket, bucket_ok := hb, blob := fun _ => b, async := fun _ => async,
      origin := fun _ => o, endpoint := fun _ => hend, same := fun _ => rfl }
  have hallowed : ∀ c ∈ cs.map fun c => ((), c), (sh.blob c.1).Allowed c.2 := by
    simpa [sh] using hcs
  obtain ⟨fuel, r, hrun, hlength, hruns⟩ :=
    sh.runs_bucket srv (fun k hk => (hobjects k hk).1) hallowed
  refine ⟨fuel, fun more hmore => ?_⟩
  have houtcomes : (s3 srv b async objects).outcomes more cs = r.1 := by
    rw [← hrun more hmore, Program.runCalls_map]
    rfl
  have hbelow : FlatStore.below b.rawPrefix objects.get? = FlatStore.empty := by
    funext key
    apply Dict.get?_eq_none_iff.mpr
    exact fun hmem => (hobjects _ hmem).2 (List.prefix_append _ key)
  have hown : FlatStore.own () ((cs.map fun c => ((), c)).zip r.1) = cs.zip r.1 := by
    unfold FlatStore.own
    rw [List.filter_eq_self.mpr fun r _ => decide_eq_true rfl, List.zip_map_left, List.map_map]
    exact List.map_id _
  have hconsistent := consistent_own (S3Blob.uniform_failures srv) (p := sh.rawPrefix)
    (fun i j hij => absurd rfl hij) (runs_iff.mp hruns).1 ()
  rw [hown] at hconsistent
  unfold Flat
  rw [houtcomes, ← hbelow]
  refine ⟨by rw [hlength, List.length_map], hconsistent.mono ?_⟩
  rintro c e ⟨hfaulty, -⟩
  exact hfaulty hsrv

/-- What serves the calls is a flat store that starts empty and never fails. -/
theorem Serves.flat (h : Serves cs d) : ∃ fuel, ∀ more, fuel ≤ more → Flat cs d more := by
  cases h with
  | memory hb => exact ⟨0, fun more _ => flat_memory hb more⟩
  | file hU ht hcs => exact ⟨0, fun more _ => flat_file hU ht hcs more⟩
  | sqlite hcs => exact ⟨0, fun more _ => flat_sqlite hcs more⟩
  | s3 hsrv hend hb hobjects hcs => exact flat_s3 _ hsrv hend hb hobjects hcs
  | @ftp N srv net fl b g U tree st t hnet hb hretries hg hU htree hempty ht hcs =>
      obtain ⟨fuel, hfuel⟩ := runs_files fl hnet hb hretries hg hU htree ht hcs
      refine ⟨fuel, fun more hmore => ?_⟩
      obtain ⟨hlength, tree', -, hruns⟩ := hfuel more hmore
      rw [hempty] at hruns
      exact ⟨hlength, (runs_iff.mp hruns).1⟩

end Deployment

namespace Deployment

/-- Two keys are stored, one of them is deleted and the directory of the other is scanned. -/
def sampleCalls : List Call :=
  [.put ['a'] [1], .put ['d', '/', 'a'] [2], .delete ['a'], .get ['a'], .scan ['d', '/'],
    .exists' ['d', '/', 'a']]

theorem serves_file : Serves sampleCalls (.file FileBlob.sample FileBlob.sampleDisk) := by
  have hscan : ¬ FileBlob.carefulKeys ['d'] := by
    rintro (h | h) <;> cases h
  have hdir : FileBlob.Careful FileBlob.carefulKeys (.scan (['d'] ++ ['/'])) :=
    .scanDir (by decide) (by decide) hscan
  refine .file FileBlob.keySet_careful FileBlob.emptyRoot_sample ?_
  simp only [sampleCalls, List.forall_mem_cons]
  exact ⟨.put [1] (.inl rfl), .put [2] (.inr rfl), .delete (.inl rfl), .get (.inl rfl), hdir,
    .exists' (.inr rfl), fun c hc => absurd hc List.not_mem_nil⟩

theorem serves_sqlite : Serves sampleCalls (.sqlite SQLiteBlob.sample) := by
  refine .sqlite fun c hc key data heq => ?_
  subst heq
  obtain ⟨rfl, -⟩ | ⟨rfl, -⟩ : key = ['a'] ∧ data = [1] ∨ key = ['d', '/', 'a'] ∧ data = [2] := by
    simpa [sampleCalls] using hc
  · decide
  · decide

theorem serves_s3 (async : Bool) :
    Serves sampleCalls (.s3 S3Blob.sampleServer (S3Blob.inBucket ['q']) async .empty) := by
  have ha : (S3Blob.inBucket ['q']).Plain ['a'] := ⟨by decide, by decide⟩
  have hda : (S3Blob.inBucket ['q']).Plain ['d', '/', 'a'] := ⟨by decide, by decide⟩
  have hfaultless : S3Blob.sampleServer.Faultless := ⟨fun _ _ _ _ => ⟨_, rfl⟩, fun _ _ _ => rfl⟩
  refine .s3 hfaultless (o := S3Blob.amazon) rfl (by decide) (fun k hk => absurd hk List.not_mem_nil) ?_
  simp only [sampleCalls, List.forall_mem_cons]
  exact ⟨.put [1] ha, .put [2] hda, .delete ha, .get ha, .scan _, .exists' hda,
    fun c hc => absurd hc List.not_mem_nil⟩

theorem serves_ftp : Serves sampleCalls (.ftp (plainServer [] 0) prompt .sync (knowing {})
    (knowing {}).start (.start (idleServer .empty) ())) := by
  have ha : FileBlob.carefulKeys ['a'] := .inl rfl
  have hda : FileBlob.carefulKeys ['d', '/', 'a'] := .inr rfl
  have hplain : FTPBlob.LoginPlain (knowing {}) :=
    ⟨loginPlain_sized.user, loginPlain_sized.password, loginPlain_sized.root⟩
  refine .ftp prompt_ne_none hplain (by decide) (within_supports _) keySet_carefulKeys (kept_empty _)
    held_empty (serving_start _ _ _ _) ?_
  simp only [sampleCalls, List.forall_mem_cons]
  exact ⟨.put ha (by decide), .put hda (by decide), .delete ha, .get ha,
    .scan listable_carefulKeys, .exists' hda, fun c hc => absurd hc List.not_mem_nil⟩

end Deployment

end GufoBlob
