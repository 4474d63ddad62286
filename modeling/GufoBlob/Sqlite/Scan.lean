import GufoBlob.Sqlite.Unified

/-!
# What `scan` yields on SQLite

The keys with a prefix are looked up as a range in the order of the code points, from the prefix up to,
and without, the prefix followed by U+10FFFF.

* `prefix_range_iff` — which lists lie in such a range, over any linear order with a largest element.
* `scan_exact_iff` — `scan` yields the keys with the prefix, in order, exactly when no key continues
  the prefix with U+10FFFF.
* `not_scan_exact` — a key that does.
-/

namespace GufoBlob

open Text Data Interaction Program

/-! ## Lexicographic ranges -/

/-- From `p` up to `p` followed by the largest element there are the lists that begin with `p`, but
for those that continue with the largest element. -/
theorem prefix_range_iff {α : Type} [LinearOrder α] {m : α} (hm : ∀ a, a ≤ m) {p k : List α} :
    p ≤ k ∧ k < p ++ [m] ↔ p <+: k ∧ ¬ p ++ [m] <+: k := by
  rw [← not_lt]
  induction p generalizing k with
  | nil =>
      cases k with
      | nil => simp
      | cons d k =>
          have hlt : d < m ↔ m ≠ d := lt_iff_le_and_ne.trans (by simp [hm d, eq_comm])
          simp [List.cons_lt_cons_iff, hlt]
  | cons c p ih =>
      cases k with
      | nil => simp
      | cons d k =>
          rw [List.cons_append, List.cons_prefix_cons, List.cons_prefix_cons,
            List.cons_lt_cons_iff, List.cons_lt_cons_iff]
          by_cases hcd : c = d
          · subst hcd
            simpa using ih
          · -- the bounds begin with `c`, so `d` would lie between `c` and `c`
            grind

/-- The largest code point. -/
def lastChar : Char := Char.ofNat 0x10FFFF

theorem le_lastChar (c : Char) : c ≤ lastChar := by
  have hvalid := c.valid
  have hlast : lastChar.toNat = 0x10FFFF := rfl
  show c.toNat ≤ lastChar.toNat
  rw [hlast]
  rcases hvalid with h | ⟨-, h⟩
  · exact Nat.le_of_lt (Nat.lt_trans h (by decide))
  · exact Nat.le_of_lt_succ h

namespace SQLiteBlob

/-- The stored keys that begin with `pre`, each once and in increasing order. -/
structure ScanExact (rows : Table) (pre : Str) (ks : List Str) : Prop where
  increasing : ks.Pairwise (· < ·)
  mem : ∀ k, k ∈ ks ↔ k ∈ rows ∧ pre <+: k

theorem range_pairwise (rows : Table) (lo hi : Str) : (range rows lo hi).Pairwise (· < ·) := by
  unfold range
  have hsorted := List.pairwise_insertionSort (· ≤ ·)
    (rows.keys.filter fun k => lo ≤ k && k < hi)
  have hnodup : (rows.keys.filter fun k => lo ≤ k && k < hi).Nodup := rows.nodup.filter _
  have hnodup' := (List.perm_insertionSort (· ≤ ·) _).nodup_iff.mpr hnodup
  exact hsorted.imp₂ (fun _ _ => lt_of_le_of_ne) hnodup'

theorem mem_range {rows : Table} {pre k : Str} :
    k ∈ range rows pre (pre ++ [lastChar]) ↔
      k ∈ rows ∧ pre <+: k ∧ ¬ pre ++ [lastChar] <+: k := by
  unfold range
  rw [List.mem_insertionSort, List.mem_filter, Bool.and_eq_true, decide_eq_true_eq,
    decide_eq_true_eq, prefix_range_iff le_lastChar]
  rfl

/-- The driver calls of the blob do not raise. -/
def noFaults : SqlFaults := fun _ => none

/-- `scan(pre)` returns the keys that it is to return. -/
def Scans (b : SQLiteBlob) (conn : Option Conn) (db : Database) (pre : Str) : Prop :=
  match ((b.backend.perform (.scan pre)).run (b.tableDriver noFaults) conn db).1 with
  | .ok (.keys ks) => ScanExact (rows db) pre ks
  | _ => False

/-- **`scan` yields exactly the stored keys with the prefix**, each once and in increasing order, if
and only if no stored key continues the prefix with U+10FFFF. -/
theorem scan_exact_iff (b : SQLiteBlob) {conn : Option Conn} {db : Database}
    (hready : conn = none ∨ db.table.isSome = true) (pre : Str) :
    b.Scans conn db pre ↔ ∀ k ∈ rows db, ¬ pre ++ [lastChar] <+: k := by
  have hmem : ∀ k, k ∈ range (rows db) pre (pre ++ [lastChar]) ↔
      k ∈ rows db ∧ pre <+: k ∧ ¬ pre ++ [lastChar] <+: k := fun k => mem_range
  have hexact : ScanExact (rows db) pre (range (rows db) pre (pre ++ [lastChar])) ↔
      ∀ k ∈ rows db, ¬ pre ++ [lastChar] <+: k := by
    constructor
    · intro h k hk hlast
      have hpre : pre <+: k := (List.prefix_append pre [lastChar]).trans hlast
      exact ((hmem k).mp ((h.mem k).mpr ⟨hk, hpre⟩)).2.2 hlast
    · intro h
      refine ⟨range_pairwise _ _ _, fun k => (hmem k).trans ?_⟩
      exact ⟨fun hk => ⟨hk.1, hk.2.1⟩, fun hk => ⟨hk.1, hk.2, h k hk.1⟩⟩
  have hanswers : b.Answers noFaults conn db b.scanSql [.text pre, .text (pre ++ [lastChar])] := by
    refine ⟨fun _ => ⟨rfl, fun _ _ => rfl⟩, rfl, ?_⟩
    cases conn with
    | none => rfl
    | some c => exact hready.resolve_left (by simp)
  rw [← hexact]
  show wp (b.tableDriver noFaults) ((b.scan pre).collect.bind fun ks => .pure (Value.keys ks))
    (fun o _ _ => (match o with
      | .ok (.keys ks) => ScanExact (rows db) pre ks
      | _ => False) ↔ _) conn db
  unfold scan
  rw [wp_bind]
  dsimp only
  rw [bind_eq, collect_embed_bind, wp_bind]
  apply wp_query
  · intro _
    have hstatement : b.statement (rows db) b.scanSql
        [.text pre, .text (pre ++ [Char.ofNat 0x10FFFF])] =
          (⟨(range (rows db) pre (pre ++ [lastChar])).map .text, -1⟩, rows db) := if_pos rfl
    rw [bindPost_ok, collect_yieldAll, hstatement]
    show ScanExact _ _ (((range _ _ _).map SqlValue.text).map castText) ↔ _
    rw [List.map_map, show castText ∘ SqlValue.text = id from rfl, List.map_id]
  · exact fun e _ _ h => absurd hanswers h

/-- A database with two keys. -/
def sampleKeys (k k' : Str) : Database := ⟨1, some ((Dict.empty.set k []).set k' [])⟩

/-- `scan("a")`, of the keys `ab` and `b`. -/
theorem scan_exact_iff_ascii : sample.Scans (some 0) (sampleKeys ['a', 'b'] ['b']) ['a'] :=
  (scan_exact_iff sample (.inr rfl) _).mpr (by decide)

/-- `scan("a")` does not yield `a` followed by U+10FFFF. -/
theorem not_scan_exact :
    ((sample.backend.perform (.scan ['a'])).run (sample.tableDriver noFaults) (some 0)
        (sampleKeys ['a', 'b'] ['a', lastChar])).1 = .ok (.keys [['a', 'b']]) ∧
      ¬ sample.Scans (some 0) (sampleKeys ['a', 'b'] ['a', lastChar]) ['a'] := by
  have hrun : ((sample.backend.perform (.scan ['a'])).run (sample.tableDriver noFaults) (some 0)
      (sampleKeys ['a', 'b'] ['a', lastChar])).1 = .ok (.keys [['a', 'b']]) := by decide
  refine ⟨hrun, fun h => ?_⟩
  unfold Scans at h
  rw [hrun] at h
  exact absurd ((h.mem ['a', lastChar]).mpr ⟨by decide, by decide⟩) (by decide)

end SQLiteBlob

end GufoBlob
